import Ipxe.Model.Tls

/-!
# When a TLS server has been authenticated

By a certificate chain that the validator has accepted and whose first certificate is for
the expected name, or by a session that was resumed and that was established by a
connection with an authenticated server.
-/

namespace Ipxe.Interface

open Library Model

variable {world : X509World} (env : TlsEnv world)

/-- The first certificate of a chain is for the expected name. -/
def ChainMatches (name : CString) (chain : List CertId) : Prop :=
  ∃ cert, chain.head? = some cert ∧ x509CheckName env.socket (world.cert cert) name = .ok ()

def ServerAuthenticated (name : CString) : TlsEvidence → Prop
  | .none => False
  | .validated chain before => ChainMatches env name chain ∨ ServerAuthenticated name before
  | .resumed session before => ServerAuthenticated name session ∨ ServerAuthenticated name before

/-- A message of a server that behaves.  It sends its Finished before that of the client only
if it has accepted the stored session which the client has offered, and it does not send a
certificate chain while one is being validated. -/
def MessageBehaves (tls : TlsConnection) (message : TlsMessage) : Prop :=
  (message.type = 20 → tls.clientNegotiation ≠ 0 → tls.resuming = true) ∧
    (message.type = 11 → tls.plugged = none ∧ tls.orphans = [])

/-- Each message, in the state in which it is handled. -/
def MessagesBehave : TlsContext → List TlsMessage → Prop
  | _, [] => True
  | ctx, message :: messages =>
    MessageBehaves ctx.tls message ∧
      ∀ ctx', tlsHandleMessage env message ctx = (.ok (), ctx') → MessagesBehave ctx' messages

/-- The messages that a handshake record completes. -/
def recordMessages (type : UInt8) (version : ℕ) (rxData : List Bytes) :
    TlsProcedure (List TlsMessage) := do
  let plaintext ← tlsDecrypt env type version rxData
  let tls ← getTls
  let data ← tlsConcatenate env tls.rxHandshake plaintext
  pure (tlsMessages data).1

/-- The servers behave. -/
def ServersBehave (state : TlsState) (event : TlsEvent) : Prop :=
  match event with
  | .record conn 22 version first more =>
    ∀ ctx messages ctx', tlsContext state conn = some ctx →
      recordMessages env 22 version (first :: more) ctx = (.ok messages, ctx') →
        MessagesBehave env ctx' messages
  | _ => True

instance (tls : TlsConnection) (message : TlsMessage) : Decidable (MessageBehaves tls message) :=
  inferInstanceAs (Decidable (_ ∧ _))

instance decidableMessagesBehave : (ctx : TlsContext) → (messages : List TlsMessage) →
    Decidable (MessagesBehave env ctx messages)
  | _, [] => .isTrue trivial
  | ctx, message :: messages =>
    have := fun ctx' => decidableMessagesBehave ctx' messages
    have := Procedure.decidableForallOk (tlsHandleMessage env message) ctx
      fun _ ctx' => MessagesBehave env ctx' messages
    decidable_of_iff (MessageBehaves ctx.tls message ∧ _)
      (and_congr_right fun _ => ⟨fun h ctx' => h () ctx', fun h _ ctx' => h ctx'⟩)

theorem serversBehave_record {state : TlsState} {conn : ℕ} {type : UInt8} {version : ℕ}
    {first : Bytes} {more : List Bytes} :
    ServersBehave env state (.record conn type version first more) ↔
      (type = 22 → ∀ ctx ∈ tlsContext state conn, ∀ messages ctx',
        recordMessages env 22 version (first :: more) ctx = (.ok messages, ctx') →
          MessagesBehave env ctx' messages) := by
  unfold ServersBehave
  split
  · next heq =>
      cases heq
      exact ⟨fun h _ ctx hctx messages ctx' => h ctx messages ctx' hctx,
        fun h ctx messages ctx' hctx => h rfl ctx hctx messages ctx'⟩
  · next hother =>
      refine ⟨fun _ htype => ?_, fun _ => trivial⟩
      subst htype
      exact (hother _ _ _ _ rfl).elim

instance (state : TlsState) : (event : TlsEvent) → Decidable (ServersBehave env state event)
  | .record .. => decidable_of_iff _ (serversBehave_record env).symm
  | .addTls .. | .txStep .. | .validatorReport .. | .plainstreamDeliver .. | .close .. | .free .. =>
    .isTrue trivial

end Ipxe.Interface
