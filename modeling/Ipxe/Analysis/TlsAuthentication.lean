import Ipxe.Analysis.OcspValidation
import Ipxe.Analysis.TlsFrames
import Ipxe.Interface.ServerAuthentication

/-!
# TLS server authentication

The client sends its Finished after the server's certificate chain was validated, but also as soon
as the server's has arrived, which the code takes for a resumption.
-/

namespace Ipxe.Analysis

open Library Model Interface Procedure List Option

variable {ctx : TlsContext} {state : TlsState} {conn : ℕ}

section

variable {world : X509World} {env : TlsEnv world}

/-- The invariant of an open connection and its session; `start` is where a function has
started, and says which connection it is. -/
structure TrustedAs (env : TlsEnv world) (start now : TlsTrust) : Prop where
  self : now.self = start.self
  session : now.session = start.session
  name : now.name = start.name
  closed : now.closed = start.closed
  client : now.clientNegotiation = 0 → ServerAuthenticated env start.name now.evidence
  finished : now.finished = true → ServerAuthenticated env start.name now.evidence
  resuming : now.resuming = true → ServerAuthenticated env start.name now.evidence
  validators : ∀ chain, now.plugged = some chain ∨ chain ∈ now.orphans → now.chain = some chain
  offered : ∀ evidence, now.offered = some evidence → ServerAuthenticated env start.name evidence
  stored : now.sessionId ≠ [] → ServerAuthenticated env start.name now.sessionEvidence

/-- From the invariant with `P`, the function leads to the invariant with `Q`; if it fails,
the invariant still holds. -/
def Leads {α : Type} (env : TlsEnv world) (start : TlsTrust) (P : TlsTrust → Prop)
    (p : TlsProcedure α) (Q : TlsTrust → Prop) : Prop :=
  Triple (fun ctx => TrustedAs env start (trust ctx) ∧ P (trust ctx)) p
    (fun _ ctx => TrustedAs env start (trust ctx) ∧ Q (trust ctx))
    (fun ctx => TrustedAs env start (trust ctx))

/-- Nothing more than the invariant. -/
def Anyway (_ : TlsTrust) : Prop := True

section

variable {α β : Type} {start : TlsTrust} {P Q : TlsTrust → Prop} {p : TlsProcedure α}

theorem Leads.frame (hp : Frame trust p) : Leads env start P p P := by
  have hkeeps : Triple (fun ctx => TrustedAs env start (trust ctx) ∧ P (trust ctx)) p
      (fun _ ctx => TrustedAs env start (trust ctx) ∧ P (trust ctx))
      (fun ctx => TrustedAs env start (trust ctx) ∧ P (trust ctx)) :=
    hp.triple fun _ _ h hpre => h ▸ hpre
  exact hkeeps.consequence (fun _ h => h) (fun _ _ h => h) fun _ h => h.1

theorem Leads.bind {p : TlsProcedure α} {f : α → TlsProcedure β} {M : TlsTrust → Prop}
    (hp : Leads env start P p M) (hf : ∀ a, Leads env start M (f a) Q) :
    Leads env start P (p >>= f) Q :=
  Triple.bind _ hp hf

theorem Leads.fail {e : TlsFault} : Leads env start P (fail e : TlsProcedure α) Q :=
  Triple.fail fun _ hpre => hpre.1

theorem Leads.whenever {c : Prop} [Decidable c] {p : TlsProcedure Unit}
    (hp : Leads env start P p P) : Leads env start P (whenever c p) P :=
  Triple.whenever hp

theorem Leads.weaken {P' Q' : TlsTrust → Prop} (hp : Leads env start P p Q)
    (hpre : ∀ now, TrustedAs env start now → P' now → P now) (hpost : ∀ now, Q now → Q' now) :
    Leads env start P' p Q' :=
  hp.consequence (fun _ h => ⟨h.1, hpre _ h.1 h.2⟩) (fun _ _ h => ⟨h.1, hpost _ h.2⟩) fun _ h => h

theorem Leads.anyway (hp : Leads env start Anyway p Q) : Leads env start P p Q :=
  hp.weaken (fun _ _ _ => trivial) fun _ h => h

theorem Leads.getTls {f : TlsConnection → TlsProcedure β} (M : TlsConnection → TlsTrust → Prop)
    (hM : ∀ ctx, P (trust ctx) → M ctx.tls (trust ctx))
    (hf : ∀ tls, Leads env start (M tls) (f tls) Q) : Leads env start P (getTls >>= f) Q :=
  Triple.bind (fun tls ctx => TrustedAs env start (trust ctx) ∧ M tls (trust ctx))
    (fun ctx hpre => ⟨hpre.1, hM ctx hpre.2⟩) hf

theorem Leads.getSession {f : TlsSession → TlsProcedure β}
    (hf : ∀ session, session.name = start.name → Leads env start P (f session) Q) :
    Leads env start P (getSession >>= f) Q := by
  intro ctx hpre
  exact hf ctx.session hpre.1.name ctx hpre

theorem Leads.returns {result : Except Errno α} {f : α → TlsProcedure β}
    (hf : ∀ a, result = .ok a → Leads env start P (f a) Q) :
    Leads env start P (tlsReturns result >>= f) Q := by
  cases result with
  | error rc => exact fun ctx hpre => hpre.1
  | ok a => exact hf a rfl

theorem Leads.modify {f : TlsContext → TlsContext}
    (h : ∀ ctx, TrustedAs env start (trust ctx) → P (trust ctx) →
      TrustedAs env start (trust (f ctx)) ∧ Q (trust (f ctx))) :
    Leads env start P (modify f) Q :=
  Triple.modify fun ctx hpre => h ctx hpre.1 hpre.2

theorem Leads.trusted (hp : Leads env start Anyway p Anyway)
    (h : TrustedAs env start (trust ctx)) : TrustedAs env start (trust (p ctx).2) := by
  have hend := hp ctx ⟨h, trivial⟩
  rcases hresult : p ctx with ⟨e | a, ctx'⟩ <;> rw [hresult] at hend
  · exact hend
  · exact hend.1

end

/-! ## Messages -/

variable {start : TlsTrust}

theorem leads_tlsNewHelloRequest : Leads env start Anyway tlsNewHelloRequest Anyway := by
  refine (Leads.frame getTls_frame).bind fun tls => Leads.whenever ?_
  refine (Leads.frame (tlsRefuse_frame _ _)).bind fun _ => Leads.modify fun ctx h _ => ⟨?_, trivial⟩
  exact { h with client := nofun, finished := nofun }

/-- **A session that is resumed.**  The evidence for the session that was offered
becomes that of the connection. -/
theorem leads_tlsCheckSessionId (sessionId : Bytes) :
    Leads env start Anyway (tlsCheckSessionId env sessionId) Anyway := by
  refine (Leads.frame getTls_frame).bind fun tls => ?_
  split
  · refine (Leads.frame (tlsGenerateKeys_frame env)).bind fun _ =>
      Leads.modify fun ctx h _ => ⟨?_, trivial⟩
    cases hoffered : ctx.tls.offered with
    | none =>
      simp only [hoffered, trust, elim_none]
      exact { h with
        resuming := fun h => by cases h
        offered := fun _ h => by cases h }
    | some evidence =>
      have hresumed : ServerAuthenticated env start.name (.resumed evidence ctx.tls.evidence) :=
        .inl (h.offered evidence hoffered)
      simp only [hoffered, trust, elim_some]
      exact { h with
        client := fun _ => hresumed
        finished := fun _ => hresumed
        resuming := fun _ => hresumed
        offered := fun other hother => h.offered other (hoffered.trans hother) }
  · refine Leads.bind (M := Anyway) (Leads.modify fun ctx h _ => ⟨?_, trivial⟩) fun _ => ?_
    · exact { h with resuming := fun h => by cases h }
    · exact Leads.whenever (Leads.frame (setTls_frame fun _ => rfl))

variable (data : Bytes)

theorem leads_tlsNewServerHello : Leads env start Anyway (tlsNewServerHello env data) Anyway := by
  refine (Leads.frame (tlsReturns_frame _)).bind fun hello => ?_
  refine (Leads.frame (tlsRefuse_frame _ _)).bind fun _ => (Leads.frame getTls_frame).bind fun tls => ?_
  refine (Leads.frame (tlsRefuse_frame _ _)).bind fun _ => ?_
  refine (Leads.frame (setTls_frame fun _ => rfl)).bind fun _ => ?_
  refine (Leads.frame (tlsSelectCipher_frame env _)).bind fun _ => ?_
  refine (Leads.frame getTls_frame).bind fun tls => (Leads.frame getSession_frame).bind fun session => ?_
  refine (Leads.frame (tlsAddHandshake_frame _)).bind fun _ => ?_
  refine (Leads.frame (setTls_frame fun _ => rfl)).bind fun _ => ?_
  exact (leads_tlsCheckSessionId _).bind fun _ => Leads.frame (tlsCheckRenegotiation_frame _)

/-- No certificate chain is being validated. -/
def NoValidator (now : TlsTrust) : Prop := now.plugged = none ∧ now.orphans = []

theorem leads_setChain (chain : Option (List CertId)) :
    Leads env start NoValidator (setTls fun tls => { tls with chain }) NoValidator := by
  refine Leads.modify fun ctx h hnone => ⟨?_, hnone⟩
  refine { h with validators := ?_ }
  rintro other (hplugged | horphan)
  · exact absurd (hnone.1.symm.trans hplugged) (by simp)
  · have hmem : other ∈ (trust ctx).orphans := horphan
    rw [hnone.2] at hmem
    exact absurd hmem (by simp)

theorem leads_tlsNewCertificate :
    Leads env start NoValidator (tlsNewCertificate env data) NoValidator := by
  refine (Leads.frame (tlsRefuse_frame _ _)).bind fun _ => ?_
  refine (Leads.frame (tlsRefuse_frame _ _)).bind fun _ => (leads_setChain none).bind fun _ => ?_
  refine (Leads.frame (tlsAlloc_frame env _)).bind fun _ => ?_
  exact (Leads.frame (tlsAppendCertificatesUpTo_frame env _ _ _)).bind fun chain =>
    leads_setChain (some chain)

/-- **A validator is created for the chain that is in place.** -/
theorem leads_tlsNewServerHelloDone :
    Leads env start Anyway (tlsNewServerHelloDone env data) Anyway := by
  refine (Leads.frame (tlsRefuse_frame _ _)).bind fun _ => Leads.bind (M := Anyway) ?_ fun _ =>
    Leads.frame (setTls_frame fun _ => rfl)
  refine Leads.getTls (fun tls now => now.chain = tls.chain) (fun _ _ => rfl) fun tls => ?_
  split
  · exact Leads.fail
  · next chain hchain =>
      rw [hchain]
      refine (Leads.frame (tlsAlloc_frame env _)).bind fun _ =>
        Leads.modify fun ctx h hnow => ⟨?_, trivial⟩
      refine { h with validators := ?_ }
      rintro other (hplugged | horphan)
      · exact hnow.trans hplugged
      · rcases mem_append.1 horphan with hold | hold
        · exact h.validators other (.inl (mem_toList.1 hold))
        · exact h.validators other (.inr hold)

def Authenticated (env : TlsEnv world) (start now : TlsTrust) : Prop :=
  ServerAuthenticated env start.name now.evidence

/-- **A session is stored by a connection with an authenticated server only.** -/
theorem leads_tlsRecordSession :
    Leads env start (Authenticated env start) tlsRecordSession Anyway := by
  refine Leads.modify fun ctx h hauth => ⟨?_, trivial⟩
  refine { h with stored := ?_ }
  intro hid
  by_cases hrecorded : ctx.tls.sessionId ≠ [] ∨ ctx.tls.newSessionTicket ≠ []
  · simp only [if_pos hrecorded]
    exact hauth
  · obtain ⟨hsession, -⟩ := not_or.1 hrecorded
    simp only [if_neg hrecorded, if_neg hsession] at hid ⊢
    exact h.stored hid

/-- **The server's Finished.**  If the client's was sent, its server is
authenticated; otherwise a session is being resumed. -/
theorem leads_tlsNewFinished :
    Leads env start (fun now => now.clientNegotiation ≠ 0 → now.resuming = true)
      (tlsNewFinished world.crypto data) Anyway := by
  refine Leads.weaken (P := Authenticated env start) (Q := Anyway) ?_ ?_ fun _ h => h
  · refine (Leads.frame (tlsRefuse_frame _ _)).bind fun _ => (Leads.frame getTls_frame).bind fun tls => ?_
    refine (Leads.frame (tlsPrfLabel_frame _ _ _ _ _)).bind fun verifyServer => ?_
    refine (Leads.frame (setTls_frame fun _ => rfl)).bind fun _ => ?_
    refine (Leads.frame (tlsRefuse_frame _ _)).bind fun _ => ?_
    refine (Leads.frame (setTls_frame fun _ => rfl)).bind fun _ => ?_
    refine Leads.bind (Leads.whenever ?_) fun _ => leads_tlsRecordSession
    exact Leads.modify fun ctx h hauth => ⟨{ h with finished := fun _ => hauth }, hauth⟩
  · intro now h hresuming
    by_cases hclient : now.clientNegotiation = 0
    · exact h.client hclient
    · exact h.resuming (hresuming hclient)

theorem leads_tlsHandleMessage {message : TlsMessage} :
    Leads env start (fun now =>
        (message.type = 20 → now.clientNegotiation ≠ 0 → now.resuming = true) ∧
          (message.type = 11 → NoValidator now))
      (tlsHandleMessage env message) Anyway := by
  refine Leads.bind (M := Anyway) ?_ fun _ =>
    Leads.whenever (Leads.frame (tlsAddHandshake_frame _))
  split
  · exact leads_tlsNewHelloRequest.anyway
  · exact (leads_tlsNewServerHello _).anyway
  · exact (Leads.frame (tlsNewSessionTicket_frame env _)).anyway
  · next htype => exact (leads_tlsNewCertificate _).weaken (fun _ _ h => h.2 htype) fun _ _ => trivial
  · exact (Leads.frame (tlsNewServerKeyExchange_frame env _)).anyway
  · exact (Leads.frame (tlsNewCertificateRequest_frame env)).anyway
  · exact (leads_tlsNewServerHelloDone _).anyway
  · next htype => exact (leads_tlsNewFinished _).weaken (fun _ _ h => h.1 htype) fun _ h => h
  · exact (Leads.frame (Frame.pure ())).anyway

/-- **The messages of a record**, by induction. -/
theorem trustedAs_tlsHandleMessages (messages : List TlsMessage) (ctx : TlsContext)
    (h : TrustedAs env start (trust ctx)) (hbehave : MessagesBehave env ctx messages) :
    TrustedAs env start (trust (tlsHandleMessages env messages ctx).2) := by
  induction messages generalizing ctx with
  | nil => exact h
  | cons message messages ih =>
    obtain ⟨hmessage, hmore⟩ := hbehave
    have hend := @leads_tlsHandleMessage world env start message ctx ⟨h, hmessage⟩
    show TrustedAs env start (trust
      ((tlsHandleMessage env message >>= fun _ => tlsHandleMessages env messages) ctx).2)
    rcases hresult : tlsHandleMessage env message ctx with ⟨e | ⟨⟩, ctx'⟩ <;> rw [hresult] at hend
    · rw [bind_error hresult]
      exact hend
    · rw [bind_ok hresult]
      exact ih ctx' hend.1 (hmore ctx' hresult)

/-! ## Events -/

theorem trustedAs_frame {α : Type} {p : TlsProcedure α} (hp : Frame trust p)
    (h : TrustedAs env start (trust ctx)) : TrustedAs env start (trust (p ctx).2) := by
  rw [hp ctx]
  exact h

theorem trustedAs_bind {α β : Type} {p : TlsProcedure α} {f : α → TlsProcedure β}
    (h : TrustedAs env start (trust (p ctx).2))
    (hf : ∀ a ctx', p ctx = (.ok a, ctx') → TrustedAs env start (trust ctx') →
      TrustedAs env start (trust (f a ctx').2)) :
    TrustedAs env start (trust ((p >>= f) ctx).2) := by
  rcases hresult : p ctx with ⟨e | a, ctx'⟩ <;> rw [hresult] at h
  · rw [bind_error hresult]
    exact h
  · rw [bind_ok hresult]
    exact hf a ctx' hresult h

theorem trustedAs_tlsNewCiphertext {type : UInt8} {version : ℕ} {rxData : List Bytes}
    (h : TrustedAs env start (trust ctx)) (hbehave : type = 22 → ∀ messages ctx',
      recordMessages env 22 version rxData ctx = (.ok messages, ctx') →
        MessagesBehave env ctx' messages) :
    TrustedAs env start (trust (tlsNewCiphertext env type version rxData ctx).2) := by
  refine trustedAs_bind (trustedAs_frame (tlsDecrypt_frame env rxData type version) h)
    fun plaintext ctx₁ hplain hdecrypted => ?_
  refine trustedAs_bind ?_ fun _ _ _ => trustedAs_frame (setTls_frame fun _ => rfl)
  by_cases htype : type = 22
  · subst htype
    show TrustedAs env start (trust ((tlsConcatenate env ctx₁.tls.rxHandshake plaintext >>=
      tlsNewHandshake env) ctx₁).2)
    refine trustedAs_bind (trustedAs_frame (tlsConcatenate_frame env _ _) hdecrypted)
      fun data ctx₂ hdata hmerged => ?_
    have hmessages : recordMessages env 22 version rxData ctx =
        (.ok (tlsMessages data).1, ctx₂) := by
      unfold recordMessages
      rw [bind_ok hplain]
      exact bind_ok hdata
    exact trustedAs_bind
      (trustedAs_tlsHandleMessages _ ctx₂ hmerged (hbehave rfl _ ctx₂ hmessages))
      fun _ _ _ => trustedAs_frame (setTls_frame fun _ => rfl)
  · exact trustedAs_frame (tlsNewRecord_frame env plaintext htype) hdecrypted

theorem leads_tlsOfferSession : Leads env start Anyway tlsOfferSession Anyway := by
  refine Leads.modify fun ctx h _ => ⟨?_, trivial⟩
  by_cases hid : ctx.session.id ≠ []
  · simp only [if_pos hid]
    refine { h with resuming := nofun, offered := ?_ }
    rintro evidence ⟨⟩
    exact h.stored hid
  · simp only [if_neg hid]
    exact { h with resuming := nofun, offered := nofun }

theorem leads_tlsSendFinished :
    Leads env start (Authenticated env start) (tlsSendFinished env) Anyway := by
  refine (Leads.frame getTls_frame).bind fun tls => ?_
  refine (Leads.frame (tlsPrfLabel_frame _ _ _ _ _)).bind fun verifyClient => ?_
  refine (Leads.frame (setTls_frame fun _ => rfl)).bind fun _ => ?_
  refine (Leads.frame (tlsSendHandshake_frame env _)).bind fun _ => ?_
  exact Leads.modify fun ctx h hauth => ⟨{ h with client := fun _ => hauth }, trivial⟩

theorem leads_tlsTxStep (window blocked : Bool) :
    Leads env start Anyway (tlsTxStep env window blocked) Anyway := by
  refine Leads.getTls (fun tls now => now.finished = tls.txPending.finished) (fun _ _ => rfl)
    fun tls => ?_
  have hsent (f : TlsTxPending → TlsTxPending) (hf : ∀ pending, (f pending).finished = pending.finished) :
      Leads env start Anyway (setTxPending f) Anyway :=
    Leads.modify fun ctx h _ => ⟨{ h with
      finished := fun hfinished => h.finished ((hf ctx.tls.txPending).symm.trans hfinished) }, trivial⟩
  split_ifs
  · exact (Leads.frame (Frame.pure ())).anyway
  · refine Leads.anyway (Leads.whenever (leads_tlsOfferSession.bind fun _ => ?_))
    exact (Leads.frame (tlsSendClientHello_frame env)).bind fun _ => hsent _ fun _ => rfl
  · exact Leads.anyway ((Leads.frame (tlsSendCertificate_frame env)).bind fun _ => hsent _ fun _ => rfl)
  · exact Leads.anyway ((Leads.frame (tlsSendClientKeyExchange_frame env)).bind fun _ =>
      hsent _ fun _ => rfl)
  · exact Leads.anyway ((Leads.frame (tlsSendCertificateVerify_frame env)).bind fun _ =>
      hsent _ fun _ => rfl)
  · refine Leads.anyway ((Leads.frame (tlsSendPlaintext_frame env 20 [1])).bind fun _ => ?_)
    refine (Leads.frame tlsChangeTxCipher_frame).bind fun _ => ?_
    exact (Leads.frame (setTls_frame fun _ => rfl)).bind fun _ => hsent _ fun _ => rfl
  · unfold whenever
    split
    · next hfinished =>
        refine Leads.weaken (P := Authenticated env start) (Q := Anyway) ?_ ?_ fun _ h => h
        · refine leads_tlsSendFinished.bind fun _ => Leads.modify fun ctx h _ => ⟨?_, trivial⟩
          exact { h with finished := fun h => by cases h }
        · exact fun now h hnow => h.finished (hnow.trans hfinished)
    · exact (Leads.frame (Frame.pure ())).anyway

/-- **The validator has finished with the chain that is in place.** -/
theorem leads_tlsValidatorDone (validated : List CertId) (rc : Except Errno Unit) :
    Leads env start (fun now => now.chain = some validated) (tlsValidatorDone env validated rc)
      Anyway := by
  refine Leads.bind (M := fun now => now.chain = some validated)
    (Leads.modify fun ctx h hchain => ⟨?_, hchain⟩) fun _ => ?_
  · exact { h with validators := fun chain hvalidator =>
      hvalidator.elim nofun fun horphan => h.validators chain (.inr horphan) }
  refine (Leads.frame (tlsReturns_frame _)).bind fun _ => ?_
  refine Leads.bind (M := fun now => now.chain = some validated ∧
      ∃ before, now.evidence = .validated validated before)
    (Leads.modify fun ctx h hchain => ⟨?_, hchain, _, rfl⟩) fun _ => ?_
  · exact { h with
      client := fun hclient => .inr (h.client hclient)
      finished := fun hfinished => .inr (h.finished hfinished)
      resuming := fun hresuming => .inr (h.resuming hresuming) }
  refine Leads.getTls (fun tls now => tls.chain = some validated ∧
    ∃ before, now.evidence = .validated validated before) (fun _ h => h) fun tls => ?_
  refine Leads.getSession fun session hname => ?_
  split
  · exact Leads.fail
  · next cert hcert =>
      refine Leads.returns fun _ hmatches => ?_
      -- the name was checked with the first certificate of the chain that was validated
      refine Leads.weaken (P := Authenticated env start) (Q := Anyway) ?_ ?_ fun _ h => h
      · refine (Leads.frame (tlsInitPubkey_frame _ _)).bind fun _ => ?_
        exact Leads.modify fun ctx h hauth => ⟨{ h with finished := fun _ => hauth }, trivial⟩
      · rintro now h ⟨hchain, before, hevidence⟩
        rw [hchain] at hcert
        rw [hname] at hmatches
        unfold Authenticated
        rw [hevidence]
        exact .inl ⟨cert, hcert, hmatches⟩

/-- **A validator reports.**  Whichever it is, its chain is the one in place. -/
theorem leads_tlsValidatorReport (orphan : Option ℕ) (rc : Except Errno Unit) :
    Leads env start Anyway (tlsValidatorReport env orphan rc) Anyway := by
  refine Triple.bind (fun validator ctx => TrustedAs env start (trust ctx) ∧
    ∀ chain, validator = some chain → (trust ctx).chain = some chain) ?_ fun validator => ?_
  · rintro ctx ⟨h, -⟩
    cases orphan with
    | none => exact ⟨h, fun chain hchain => h.validators chain (.inl hchain)⟩
    | some index =>
      refine ⟨{ h with validators := ?_ }, fun chain hchain => ?_⟩
      · exact fun chain hvalidator =>
          h.validators chain (hvalidator.imp_right mem_of_mem_eraseIdx)
      · exact h.validators chain (.inr (mem_of_getElem? hchain))
  · cases validator with
    | none => exact fun ctx h => ⟨h.1, trivial⟩
    | some validated =>
      exact fun ctx h => leads_tlsValidatorDone validated rc ctx ⟨h.1, h.2 validated rfl⟩

/-! ## All connections -/

/-- The invariant of all connections and sessions.  A connection that has been closed no
longer matters. -/
structure StateTrusted (env : TlsEnv world) (state : TlsState) : Prop where
  bound : ∀ tls ∈ state.connections, tls.session < state.sessions.length
  sessions : ∀ session ∈ state.sessions, session.id ≠ [] →
    ServerAuthenticated env session.name session.evidence
  connections : ∀ (conn : ℕ) (ctx : TlsContext), tlsContext state conn = some ctx →
    TrustedAs env (trust ctx) (trust ctx)

theorem tlsContext_eq_some :
    tlsContext state conn = some ctx ↔
      state.connections[conn]? = some ctx.tls ∧ state.sessions[ctx.tls.session]? = some ctx.session ∧
        ctx.tls.closed = none ∧ ctx.self = conn ∧ ctx.turn = state.turn := by
  obtain ⟨self, tls, session, turn⟩ := ctx
  simp only [tlsContext, bind_eq_bind, bind_eq_some_iff]
  constructor
  · rintro ⟨tls', htls, session', hsession, h⟩
    split_ifs at h with hclosed
    cases h
    exact ⟨htls, hsession, by simpa using hclosed, rfl, rfl⟩
  · rintro ⟨htls, hsession, hclosed, rfl, rfl⟩
    exact ⟨tls, htls, session, hsession, by rw [if_neg (by simp [hclosed])]⟩

/-- A connection is trusted for the name of its session, whatever else the session is. -/
theorem TrustedAs.of_session {ctx' : TlsContext} (h : TrustedAs env start (trust ctx))
    (htls : ctx'.tls = ctx.tls) (hname : ctx'.session.name = start.name)
    (hstored : ctx'.session.id ≠ [] →
      ServerAuthenticated env ctx'.session.name ctx'.session.evidence) :
    TrustedAs env (trust ctx') (trust ctx') := by
  refine ⟨rfl, rfl, rfl, rfl, ?_, ?_, ?_, ?_, ?_, hstored⟩ <;>
    simp only [trust, htls, hname]
  · exact h.client
  · exact h.finished
  · exact h.resuming
  · exact h.validators
  · exact h.offered

theorem TrustedAs.at_end (h : TrustedAs env start (trust ctx)) :
    TrustedAs env (trust ctx) (trust ctx) := by
  have hname : ctx.session.name = start.name := h.name
  exact h.of_session rfl hname (hname ▸ h.stored)

/-- Sessions are changed without their names. -/
structure SessionsKept (env : TlsEnv world) (sessions sessions' : List TlsSession) : Prop where
  names : ∀ (i : ℕ) (session : TlsSession), sessions[i]? = some session →
    ∃ session' : TlsSession, sessions'[i]? = some session' ∧ session'.name = session.name
  stored : ∀ session ∈ sessions', session.id ≠ [] →
    ServerAuthenticated env session.name session.evidence

section

variable (h : StateTrusted env state)

include h

/-- **The invariant goes on** if the sessions keep their names, and each connection is
an old one or is trusted for the name of its session. -/
theorem StateTrusted.next {state' : TlsState}
    (hkept : SessionsKept env state.sessions state'.sessions)
    (hconnections : ∀ tls ∈ state'.connections, tls ∈ state.connections ∨
      tls.session < state'.sessions.length ∧ ∀ ctx : TlsContext, ctx.tls = tls → tls.closed = none →
        state'.sessions[tls.session]? = some ctx.session → TrustedAs env (trust ctx) (trust ctx)) :
    StateTrusted env state' := by
  refine ⟨fun tls hmem => ?_, hkept.stored, fun conn ctx hctx => ?_⟩
  · rcases hconnections tls hmem with hold | ⟨hbound, -⟩
    · obtain ⟨session', hsession', -⟩ := hkept.names _ _ (getElem?_eq_getElem (h.bound tls hold))
      exact (List.getElem?_eq_some_iff.1 hsession').1
    · exact hbound
  · obtain ⟨htls, hsession, hclosed, -, -⟩ := tlsContext_eq_some.1 hctx
    rcases hconnections _ (mem_of_getElem? htls) with hold | ⟨-, hnew⟩
    · obtain ⟨other, hother⟩ := mem_iff_getElem?.1 hold
      have hsession₀ := getElem?_eq_getElem (h.bound _ hold)
      obtain ⟨session', hsession', hname⟩ := hkept.names _ _ hsession₀
      have hctx₀ : tlsContext state other = some ⟨other, ctx.tls, _, state.turn⟩ :=
        tlsContext_eq_some.2 ⟨hother, hsession₀, hclosed, rfl, rfl⟩
      rw [hsession] at hsession'
      cases hsession'
      exact (h.connections other _ hctx₀).of_session rfl hname
        (hkept.stored _ (mem_of_getElem? hsession))
    · exact hnew ctx rfl hclosed hsession

theorem stateTrusted_tlsStore {ctx' : TlsContext} (hctx : tlsContext state conn = some ctx)
    (hsession : ctx'.tls.session = ctx.tls.session) (hname : ctx'.session.name = ctx.session.name)
    (hopen : ctx'.tls.closed = none → TrustedAs env (trust ctx') (trust ctx'))
    (hstored : ctx'.session.id ≠ [] →
      ServerAuthenticated env ctx'.session.name ctx'.session.evidence) :
    StateTrusted env (tlsStore state ctx') := by
  obtain ⟨-, hsession₀, -⟩ := tlsContext_eq_some.1 hctx
  rw [← hsession] at hsession₀
  have hplace : (tlsStore state ctx').sessions[ctx'.tls.session]? = some ctx'.session :=
    getElem?_set_self (List.getElem?_eq_some_iff.1 hsession₀).1
  refine h.next ⟨fun i session hold => ?_, fun session hmem => ?_⟩ fun tls hmem => ?_
  · by_cases hi : ctx'.tls.session = i
    · subst hi
      rw [hsession₀] at hold
      cases hold
      exact ⟨_, hplace, hname⟩
    · exact ⟨session, (getElem?_set_ne hi).trans hold, rfl⟩
  · rcases mem_or_eq_of_mem_set hmem with hold | rfl
    · exact h.sessions session hold
    · exact hstored
  · rcases mem_or_eq_of_mem_set hmem with hold | rfl
    · exact .inl hold
    · refine .inr ⟨(List.getElem?_eq_some_iff.1 hplace).1, fun ctx'' htls hclosed hsession' => ?_⟩
      obtain hsame : ctx'.session = ctx''.session := Option.some.inj (hplace.symm.trans hsession')
      exact (hopen hclosed).of_session htls (congrArg _ hsame.symm) (hsame ▸ hstored)

theorem stateTrusted_tlsFinish (hctx : tlsContext state conn = some ctx)
    {result : Except TlsFault Unit × TlsContext}
    (hend : TrustedAs env (trust ctx) (trust result.2)) :
    StateTrusted env (tlsFinish state result) := by
  obtain ⟨r, ctx'⟩ := result
  have hstored : ctx'.session.id ≠ [] →
      ServerAuthenticated env ctx'.session.name ctx'.session.evidence := hend.at_end.stored
  have hkept : StateTrusted env (tlsStore state ctx') :=
    stateTrusted_tlsStore h hctx hend.session hend.name (fun _ => hend.at_end) hstored
  unfold tlsFinish
  split
  · next hresult =>
      cases hresult
      exact hkept
  · next rc _ hresult =>
      cases hresult
      exact stateTrusted_tlsStore h hctx hend.session hend.name nofun hstored
  · next hresult =>
      cases hresult
      exact ⟨hkept.bound, hkept.sessions, hkept.connections⟩

theorem StateTrusted.modifySession {f : TlsSession → TlsSession}
    (hf : ∀ session, (f session).name = session.name ∧ (f session).id = session.id ∧
      (f session).evidence = session.evidence)
    (index : ℕ) :
    SessionsKept env state.sessions (state.sessions.modify index f) := by
  refine ⟨fun i session hold => ?_, fun session' hmem => ?_⟩
  · rw [getElem?_modify, hold]
    refine ⟨_, rfl, ?_⟩
    split_ifs
    exacts [(hf session).1, rfl]
  · obtain ⟨i, hi⟩ := mem_iff_getElem?.1 hmem
    rw [getElem?_modify, Option.map_eq_map, Option.map_eq_some_iff] at hi
    obtain ⟨session, hold, rfl⟩ := hi
    have hstored := h.sessions session (mem_of_getElem? hold)
    obtain ⟨hname, hid, hevidence⟩ := hf session
    split_ifs
    · rwa [hname, hid, hevidence]
    · exact hstored

theorem StateTrusted.addConnection {sessions : List TlsSession} {tls : TlsConnection}
    (hkept : SessionsKept env state.sessions sessions) (hsession : tls.session < sessions.length)
    (hfresh : ∃ session key root clientRandom,
      tls = tlsRestart { session, key, root, clientRandom }) :
    StateTrusted env { state with connections := state.connections ++ [tls], sessions } := by
  refine h.next hkept fun other hmem => ?_
  rcases mem_append.1 hmem with hold | hnew
  · exact .inl hold
  · obtain ⟨session, key, root, clientRandom, rfl⟩ := hfresh
    rw [mem_singleton.1 hnew]
    refine .inr ⟨hsession, fun ctx htls _ hctx => ?_⟩
    refine ⟨rfl, rfl, rfl, rfl, ?_, ?_, ?_, ?_, ?_, hkept.stored _ (mem_of_getElem? hctx)⟩ <;>
      simp [trust, htls, tlsRestart]

theorem stateTrusted_addTls (name : CString) (root : RootId) (key : ℕ) :
    StateTrusted env (addTls env state name root key) := by
  have hturn : StateTrusted env { state with turn := state.turn + 1 } :=
    h.next ⟨fun _ session hold => ⟨session, hold, rfl⟩, h.sessions⟩ fun _ hmem => .inl hmem
  simp only [addTls]
  split
  · exact hturn
  split_ifs with hmalloc hfound
  · exact hturn
  · -- the session exists
    refine hturn.addConnection (hturn.modifySession ?_ _) ?_ ⟨_, _, _, _, rfl⟩
    · exact fun _ => ⟨rfl, rfl, rfl⟩
    · rwa [length_modify]
  · refine hturn.addConnection ⟨fun i session hold => ⟨session, ?_, rfl⟩, fun session hmem hid => ?_⟩
      ?_ ⟨_, _, _, _, rfl⟩
    · rw [getElem?_append_left (List.getElem?_eq_some_iff.1 hold).1, hold]
    · rcases mem_append.1 hmem with hold | hnew
      · exact h.sessions session hold hid
      · rw [mem_singleton.1 hnew] at hid
        exact absurd rfl hid
    · rw [length_append]
      exact Nat.lt_succ_of_le findIdx_le_length

theorem stateTrusted_freeTls (conn : ℕ) : StateTrusted env (freeTls state conn) := by
  unfold freeTls
  split
  · exact h
  next tls htls =>
  split_ifs with hclosed
  · exact h
  refine h.next (h.modifySession ?_ _) fun other hmem => ?_
  · exact fun _ => ⟨rfl, rfl, rfl⟩
  rcases mem_or_eq_of_mem_set hmem with hold | rfl
  · exact .inl hold
  · refine .inr ⟨?_, fun _ _ hopen => absurd hopen hclosed⟩
    rw [length_modify]
    exact h.bound tls (mem_of_getElem? htls)

/-- An event of one connection, which does nothing if it is not open. -/
theorem stateTrusted_elim {f : TlsContext → TlsState}
    (hf : ∀ ctx, tlsContext state conn = some ctx → StateTrusted env (f ctx)) :
    StateTrusted env ((tlsContext state conn).elim state f) := by
  cases hctx : tlsContext state conn with
  | none => exact h
  | some ctx => exact hf ctx hctx

end

theorem stateTrusted_tlsStep (state : TlsState) (event : TlsEvent) (h : StateTrusted env state)
    (hbehave : ServersBehave env state event) : StateTrusted env (tlsStep env state event) := by
  unfold tlsStep
  split
  · exact h
  · cases event with
    | addTls name root key => exact stateTrusted_addTls h name root key
    | record conn type version first more =>
      refine stateTrusted_elim h fun ctx hctx => stateTrusted_tlsFinish h hctx
        (trustedAs_tlsNewCiphertext (h.connections conn ctx hctx) ?_)
      rintro rfl messages ctx' hmessages
      exact hbehave ctx messages ctx' hctx hmessages
    | txStep conn window =>
      exact stateTrusted_elim h fun ctx hctx => stateTrusted_tlsFinish h hctx
        ((leads_tlsTxStep window _).trusted (h.connections conn ctx hctx))
    | validatorReport conn orphan rc =>
      exact stateTrusted_elim h fun ctx hctx => stateTrusted_tlsFinish h hctx
        ((leads_tlsValidatorReport orphan rc).trusted (h.connections conn ctx hctx))
    | plainstreamDeliver conn data =>
      refine stateTrusted_elim h fun ctx hctx => ?_
      have hend := trustedAs_frame (tlsPlainstreamDeliver_frame env data)
        (h.connections conn ctx hctx)
      exact stateTrusted_tlsStore h hctx hend.session hend.name (fun _ => hend.at_end)
        hend.at_end.stored
    | close conn rc =>
      refine stateTrusted_elim h fun ctx hctx => ?_
      have htrusted := h.connections conn ctx hctx
      exact stateTrusted_tlsStore h hctx rfl rfl nofun htrusted.stored
    | free conn => exact stateTrusted_freeTls h conn

theorem stateTrusted_empty : StateTrusted env {} where
  bound := by simp
  sessions := by simp
  connections conn ctx hctx := by
    obtain ⟨htls, -⟩ := tlsContext_eq_some.1 hctx
    simp at htls

end

/-- **A connection is ready only with an authenticated server**, in every run in
which the servers behave.
[net/tls.c:249-252,1852-2027,2336-2404,3323-3508] -/
theorem tls_ready_authenticated {world : X509World} (env : TlsEnv world) (events : List TlsEvent)
    (hbehave : Meets (tlsStep env) (ServersBehave env) {} events) :
    ∀ conn ctx, tlsContext (run (tlsStep env) {} events) conn = some ctx →
      tlsReady ctx.tls = true → ServerAuthenticated env ctx.session.name ctx.tls.evidence := by
  intro conn ctx hctx hready
  have hinv : StateTrusted env (run (tlsStep env) {} events) :=
    run_invariant stateTrusted_tlsStep stateTrusted_empty hbehave
  have hclient : ctx.tls.clientNegotiation = 0 := (of_decide_eq_true hready).1
  exact (hinv.connections conn ctx hctx).client hclient

/-- A cipher that leaves everything as it is. -/
def plainCipher : CipherOps where
  ctxsize := 0
  setkey ctx _ := .ok ctx
  setiv ctx _ := ctx
  encrypt ctx data := (ctx, data)
  decrypt ctx data := (ctx, data)
  encryptAdditional ctx _ := ctx
  decryptAdditional ctx _ := ctx
  auth _ := List.replicate 16 0

/-- The certificate of the server whose name is expected. -/
def derServer : Bytes :=
  derCertificate 1 1 2 (derExtension [0x55, 0x1d, 0x11]
    (derObject 0x30 (derObject 0x82 (ascii "server"))))

def serverWorld : X509World where
  crypto := acceptingCrypto
  cert _ := certificateOf derServer
  root _ := ⟨.sha256, []⟩

def clientEnv : TlsEnv serverWorld where
  memory := clearMemory
  certificate cursor := if (asn1ShrinkAny cursor).2 = derServer then .ok 0 else .error .enomem
  certificate_parsed cursor cert h := by
    split_ifs at h with hraw
    rw [hraw]
    exact certificateOf_parsed (by decide +kernel)
  aesCbc := plainCipher
  aesGcm := plainCipher
  pubkeyEncrypt _ _ data := .ok data
  pubkeySign _ _ _ data := .ok data
  pubkeyVerify _ _ _ _ _ := .ok ()
  dheKey _ _ _ key := .ok (key, key)
  socket := ⟨32, true, fun _ => false, []⟩
  certstore := []
  privkey _ := []
  certstoreFindKey _ := none
  oracle _ := ⟨true, .ok fun _ => 7, .ok (), fun _ => 0, [1, 2, 3, 4], 0⟩

def serverName : CString := ⟨ascii "server", by decide⟩

def handshakeMessage (type : UInt8) (payload : Bytes) : Bytes :=
  tlsTypeLength type payload.length ++ payload

/-- A Server Hello for TLS 1.2 with AES-128-GCM. -/
def serverHello (sessionId : Bytes) : Bytes :=
  handshakeMessage 2 (bigEndian 2 0x0303 ++ List.replicate 32 9 ++
    UInt8.ofNat sessionId.length :: sessionId ++ bigEndian 2 0x009c ++ [0])

/-- A record under the cipher: the explicit part of its vector, the data and the tag. -/
def sealed (data : Bytes) : Bytes := List.replicate 8 0 ++ data ++ List.replicate 16 0

/-- Change Cipher and Finished, computed as anyone can who knows the master secret. -/
def serverFinished (events : List TlsEvent) : List TlsEvent :=
  let verify (tls : TlsConnection) := (tlsPrf serverWorld.crypto tls.version tls.handshakeDigest
    tls.masterSecret 12 (ascii "server finished" ++ tlsVerifyHandshake serverWorld.crypto tls)).getD []
  let data := ((run (tlsStep clientEnv) {} events).connections[0]?).elim [] verify
  [.record 0 20 0x0303 [1] [], .record 0 22 0x0303 (sealed (handshakeMessage 20 data)) []]

/-- A handshake with a server that shows its certificate. -/
def honestEvents : List TlsEvent :=
  let certificates := bigEndian 3 (derServer.length + 3) ++ bigEndian 3 derServer.length ++ derServer
  let events := [.addTls serverName 0 0, .txStep 0 true, .record 0 22 0x0303 (serverHello []) [],
    .record 0 22 0x0303 (handshakeMessage 11 certificates ++ handshakeMessage 14 []) [],
    .validatorReport 0 none (.ok ()), .txStep 0 true, .txStep 0 true, .txStep 0 true]
  events ++ serverFinished events

/-- The server that shows its certificate is authenticated. -/
theorem tls_ready_authenticated_honest :
    ∃ ctx, tlsContext (run (tlsStep clientEnv) {} honestEvents) 0 = some ctx ∧
      tlsReady ctx.tls = true ∧ ServerAuthenticated clientEnv ctx.session.name ctx.tls.evidence := by
  have hready : (tlsContext (run (tlsStep clientEnv) {} honestEvents) 0).any
      (fun ctx => tlsReady ctx.tls) = true := by decide +kernel
  obtain ⟨ctx, hctx, hready⟩ := any_eq_true _ _ |>.1 hready
  exact ⟨ctx, hctx, hready, tls_ready_authenticated clientEnv honestEvents (by decide +kernel)
    0 ctx hctx hready⟩

/-- A handshake with a server that sends the session identifier of the Client Hello back and
shows no certificate. -/
def echoEvents : List TlsEvent :=
  let events := [.addTls serverName 0 0, .txStep 0 true,
    .record 0 22 0x0303 (serverHello ([1, 2, 3, 4] ++ List.replicate 28 7)) []]
  events ++ serverFinished events ++ [.txStep 0 true, .txStep 0 true]

/-- **A server without any certificate.**  The identifier that the client offers is
random and the master secret that goes with it is all zeroes, so that whoever sends it
back is able to compute a Finished that the client accepts.
[net/tls.c:1852-2027,2336-2404,3323-3508] -/
theorem tls_ready_unauthenticated :
    ∃ ctx, tlsContext (run (tlsStep clientEnv) {} echoEvents) 0 = some ctx ∧
      tlsReady ctx.tls = true ∧ ¬ ServerAuthenticated clientEnv ctx.session.name ctx.tls.evidence := by
  have hready : (tlsContext (run (tlsStep clientEnv) {} echoEvents) 0).any
      (fun ctx => tlsReady ctx.tls ∧ ctx.tls.evidence = .none) = true := by decide +kernel
  obtain ⟨ctx, hctx, hready⟩ := any_eq_true _ _ |>.1 hready
  obtain ⟨hready, hnone⟩ := of_decide_eq_true hready
  exact ⟨ctx, hctx, hready, fun hauthenticated => by rwa [hnone] at hauthenticated⟩

end Ipxe.Analysis
