import Ipxe.Model.TlsReceive

/-!
# Transport Layer Security

`net/tls.c`.  The transmit process, the certificate validator's report, and all connections and
sessions together.  What the validator reports, and when, comes from outside, and so does the order
in which things happen to connections.
-/

namespace Ipxe.Model

open Library

/-! ## One connection -/

/-- Record or generate session ID and associated master secret.
[3422-3437] -/
def tlsOfferSession : TlsProcedure Unit :=
  Procedure.modify fun ctx =>
    if ctx.session.id ≠ [] then
      { ctx with tls := { ctx.tls with
        sessionId := ctx.session.id
        masterSecret := ctx.session.masterSecret
        offered := some ctx.session.evidence
        resuming := false } }
    else
      { ctx with tls := { ctx.tls with
        sessionId := ctx.tls.clientRandom
        offered := none
        resuming := false } }

def setTxPending (f : TlsTxPending → TlsTxPending) : TlsProcedure Unit :=
  setTls fun tls => { tls with txPending := f tls.txPending }

/-- Finish with TLS connection.
[411-432] -/
def tlsClose (rc : Except Errno Unit) (ctx : TlsContext) : TlsContext :=
  { ctx with
    tls := { ctx.tls with
      clientNegotiation := ctx.tls.clientNegotiation - 1
      serverNegotiation := ctx.tls.serverNegotiation - 1
      validation := ctx.tls.validation - 1
      closed := some rc }
    session := { ctx.session with conn := ctx.session.conn.erase ctx.self } }

section

variable {world : X509World} (env : TlsEnv world)

/-- The transmit state machine: send the first pending transmission.  `window` is whether
the ciphertext stream accepts data, and `blocked` whether a connection that comes first in
the session has its server negotiation pending.
[3401-3508] -/
def tlsTxStep (window blocked : Bool) : TlsProcedure Unit := do
  let tls ← getTls
  if window = false then pure ()
  else if tls.txPending.clientHello then
    Procedure.whenever (blocked = false) do
      tlsOfferSession
      tlsSendClientHello env
      setTxPending fun pending => { pending with clientHello := false }
  else if tls.txPending.certificate then do
    tlsSendCertificate env
    setTxPending fun pending => { pending with certificate := false }
  else if tls.txPending.clientKeyExchange then do
    tlsSendClientKeyExchange env
    setTxPending fun pending => { pending with clientKeyExchange := false }
  else if tls.txPending.certificateVerify then do
    tlsSendCertificateVerify env
    setTxPending fun pending => { pending with certificateVerify := false }
  else if tls.txPending.changeCipher then do
    tlsSendChangeCipher env
    tlsChangeTxCipher
    setTls fun tls => { tls with txSeq := 0 }
    setTxPending fun pending => { pending with changeCipher := false }
  else
    Procedure.whenever tls.txPending.finished do
      tlsSendFinished env
      setTxPending fun pending => { pending with finished := false }

/-- Initialise public key algorithm with the server's key.
[3352-3360] -/
def tlsInitPubkey (crypto : Crypto) (key : Bytes) : TlsProcedure Unit := do
  let tls ← getTls
  tlsReturns (match tls.txCipherspecPending.suite.pubkey with
    | none => .ok ()
    | some pubkey => crypto.pubkeyInit pubkey key)
  setTls fun tls => { tls with
    txCipherspecPending := { tls.txCipherspecPending with pubkeyCtx := some key } }

/-- Handle certificate validation completion, for a validator of this chain.  The validator
never succeeds for an empty chain.
[3323-3378] -/
def tlsValidatorDone (validated : List CertId) (rc : Except Errno Unit) : TlsProcedure Unit := do
  setTls fun tls => { tls with validation := tls.validation - 1, plugged := none }
  tlsReturns rc
  setTls fun tls => { tls with evidence := .validated validated tls.evidence }
  let tls ← getTls
  let session ← getSession
  match tls.chain.bind List.head? with
  | none => Procedure.fail .stuck
  | some cert =>
    tlsReturns (x509CheckName env.socket (world.cert cert) session.name)
    tlsInitPubkey world.crypto (world.cert cert).subject.publicKey.raw
    setTxPending fun pending => { pending with
      clientKeyExchange := true
      changeCipher := true
      finished := true
      certificate := pending.certificate || tls.certs.isSome
      certificateVerify := pending.certificateVerify || tls.certs.isSome }

/-- Which validator reports: the one plugged into the connection, or another one. -/
def tlsTakeValidator (orphan : Option ℕ) : TlsProcedure (Option (List CertId)) := do
  let tls ← getTls
  match orphan with
  | none => pure tls.plugged
  | some index => do
    setTls fun tls => { tls with orphans := tls.orphans.eraseIdx index }
    pure tls.orphans[index]?

/-- A validator reports to the connection. -/
def tlsValidatorReport (orphan : Option ℕ) (rc : Except Errno Unit) : TlsProcedure Unit := do
  let validator ← tlsTakeValidator orphan
  match validator with
  | none => pure ()
  | some validated => tlsValidatorDone env validated rc

/-- Deliver datagram as raw data.
[3042-3060] -/
def tlsPlainstreamDeliver (data : Bytes) : TlsProcedure Unit := do
  let tls ← getTls
  tlsRefuse (tlsReady tls = false) .enotconn
  tlsSendPlaintext env 23 data

end

/-! ## All connections -/

/-- The connections and sessions there have been, by number, and whether a function has got
stuck. -/
structure TlsState where
  connections : List TlsConnection := []
  sessions : List TlsSession := []
  turn : ℕ := 0
  stuck : Bool := false

variable (state : TlsState)

/-- What a function for a connection works on; there is nothing for a closed one. -/
def tlsContext (conn : ℕ) : Option TlsContext := do
  let tls ← state.connections[conn]?
  let session ← state.sessions[tls.session]?
  if tls.closed.isSome then none else some ⟨conn, tls, session, state.turn⟩

def tlsStore (ctx : TlsContext) : TlsState :=
  { state with
    connections := state.connections.set ctx.self ctx.tls
    sessions := state.sessions.set ctx.tls.session ctx.session
    turn := ctx.turn }

/-- The connection is closed on error. -/
def tlsFinish (result : Except TlsFault Unit × TlsContext) : TlsState :=
  match result with
  | (.ok (), ctx) => tlsStore state ctx
  | (.error (.rc rc), ctx) => tlsStore state (tlsClose (.error rc) ctx)
  | (.error .stuck, ctx) => { tlsStore state ctx with stuck := true }

/-- Whether the connection has to wait before it sends its Client Hello.
[3412-3421] -/
def tlsBlocked (ctx : TlsContext) : Bool :=
  (ctx.session.conn.takeWhile (· ≠ ctx.self)).any fun conn =>
    (state.connections[conn]?).any fun tls => tls.serverNegotiation ≠ 0

/-- Find or create session for TLS connection.
[3528-3570] -/
def tlsSession (sessions : List TlsSession) (name : CString) (root : RootId) (key : ℕ) : ℕ :=
  sessions.findIdx fun session =>
    session.freed = false ∧ session.name.chars = name.chars ∧ session.root = root ∧
      session.key = key

section

variable {world : X509World} (env : TlsEnv world)

/-- Add TLS on an interface.
[3588-3640] -/
def addTls (state : TlsState) (name : CString) (root : RootId) (key : ℕ) : TlsState :=
  let oracle := env.oracle state.turn
  let state := { state with turn := state.turn + 1 }
  match oracle.random with
  | .error _ => state
  | .ok random =>
    let conn := state.connections.length
    let session := tlsSession state.sessions name root key
    let tls := tlsRestart {
      session, key, root
      clientRandom := oracle.time.take 4 ++ (List.range 28).map random }
    if oracle.malloc = false then state
    else
      { state with
        connections := state.connections ++ [tls]
        sessions :=
          if session < state.sessions.length then
            state.sessions.modify session fun session =>
              { session with conn := session.conn ++ [conn] }
          else state.sessions ++ [{ name, root, key, conn := [conn] }] }

/-- Free TLS connection, and its session with the last of its connections.
[348-403] -/
def freeTls (state : TlsState) (conn : ℕ) : TlsState :=
  match state.connections[conn]? with
  | none => state
  | some tls =>
    if tls.closed = none then state
    else
      let connections := state.connections.set conn { tls with freed := true }
      let unused := connections.all fun other => other.session ≠ tls.session ∨ other.freed
      { state with
        connections
        sessions := state.sessions.modify tls.session fun session =>
          { session with freed := session.freed || unused } }

/-- What can happen.  A received record comes as the buffers its data was received into. -/
inductive TlsEvent where
  | addTls (name : CString) (root : RootId) (key : ℕ)
  | record (conn : ℕ) (type : UInt8) (version : ℕ) (first : Bytes) (more : List Bytes)
  | txStep (conn : ℕ) (window : Bool)
  | validatorReport (conn : ℕ) (orphan : Option ℕ) (rc : Except Errno Unit)
  | plainstreamDeliver (conn : ℕ) (data : Bytes)
  | close (conn : ℕ) (rc : Except Errno Unit)
  | free (conn : ℕ)

/-- One event.  Nothing happens any more once a function has got stuck. -/
def tlsStep (state : TlsState) (event : TlsEvent) : TlsState :=
  if state.stuck then state
  else
    match event with
    | .addTls name root key => addTls env state name root key
    | .record conn type version first more =>
      (tlsContext state conn).elim state fun ctx =>
        tlsFinish state (tlsNewCiphertext env type version (first :: more) ctx)
    | .txStep conn window =>
      (tlsContext state conn).elim state fun ctx =>
        tlsFinish state (tlsTxStep env window (tlsBlocked state ctx) ctx)
    | .validatorReport conn orphan rc =>
      (tlsContext state conn).elim state fun ctx =>
        tlsFinish state (tlsValidatorReport env orphan rc ctx)
    | .plainstreamDeliver conn data =>
      (tlsContext state conn).elim state fun ctx =>
        tlsStore state (tlsPlainstreamDeliver env data ctx).2
    | .close conn rc =>
      (tlsContext state conn).elim state fun ctx => tlsStore state (tlsClose rc ctx)
    | .free conn => freeTls state conn

end

end Ipxe.Model
