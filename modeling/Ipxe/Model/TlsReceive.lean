import Ipxe.Model.TlsHandshake

/-!
# Receiving TLS records

`net/tls.c`.  What a client does with the records of the server, from the decryption of a record to
the handlers of the messages in it.
-/

namespace Ipxe.Model

open Library

/-! ## Parsing -/

/-- The loop over the extensions of a Server Hello, for at most so many turns.  The last
renegotiation info is the one that counts.
[1909-1944] -/
def tlsParseExtensionsUpTo : ℕ → Bytes → Option Bytes → Except Errno (Option Bytes)
  | 0, _, reneg => .ok reneg
  | turns + 1, exts, reneg =>
    if exts = [] then .ok reneg
    else if 4 > exts.length then .error .einvalHello
    else
      let len := bigEndianValue ((exts.drop 2).take 2)
      let data := (exts.drop 4).take len
      if len > exts.length - 4 then .error .einvalHello
      else if bigEndianValue (exts.take 2) = 0xff01 then
        if 1 > data.length ∨ (data.headD 0).toNat > data.length - 1 then .error .einvalHello
        else
          tlsParseExtensionsUpTo turns (exts.drop (4 + len))
            (some (data.tail.take (data.headD 0).toNat))
      else tlsParseExtensionsUpTo turns (exts.drop (4 + len)) reneg

/-- What a Server Hello says.  `reneg` is its renegotiation info, if it has one. -/
structure TlsServerHello where
  version : ℕ
  random : Bytes
  sessionId : Bytes
  cipherSuite : ℕ
  reneg : Option Bytes
  deriving DecidableEq, Repr

variable (data : Bytes)

/-- See 1852-1946 -/
def tlsParseServerHello : Except Errno TlsServerHello :=
  let sessionIdLen := ((data.drop 34).headD 0).toNat
  if 35 > data.length ∨ sessionIdLen > data.length - 35 ∨ 3 > data.length - 35 - sessionIdLen then
    .error .einvalHello
  else
    let helloB := data.drop (35 + sessionIdLen)
    let exts := helloB.drop 3
    let hello (reneg : Option Bytes) : TlsServerHello := {
      version := bigEndianValue (data.take 2)
      random := (data.drop 2).take 32
      sessionId := (data.drop 35).take sessionIdLen
      cipherSuite := bigEndianValue (helloB.take 2)
      reneg }
    if exts = [] then .ok (hello none)
    else
      let extsLen := bigEndianValue (exts.take 2)
      if 2 > exts.length ∨ extsLen > exts.length - 2 then .error .einvalHello
      else (tlsParseExtensionsUpTo extsLen ((exts.drop 2).take extsLen) none).map hello

/-- A handshake message, with the bytes it consists of. -/
structure TlsMessage where
  type : UInt8
  payload : Bytes
  raw : Bytes
  deriving DecidableEq, Repr

/-- The messages that a buffer starts with, for at most so many of them, and what remains. -/
def tlsMessagesUpTo : ℕ → Bytes → List TlsMessage × Bytes
  | 0, data => ([], data)
  | turns + 1, data =>
    if 4 > data.length then ([], data)
    else
      let payloadLen := bigEndianValue ((data.drop 1).take 3)
      if payloadLen > data.length - 4 then ([], data)
      else
        let recordLen := 4 + payloadLen
        let (messages, rest) := tlsMessagesUpTo turns (data.drop recordLen)
        (⟨data.headD 0, (data.drop 4).take payloadLen, data.take recordLen⟩ :: messages, rest)

/-- The complete messages in a buffer, and the fragment that is left unconsumed.
[2418-2441,2489-2491] -/
def tlsMessages : List TlsMessage × Bytes := tlsMessagesUpTo data.length data

/-! ## Messages of the server -/

/-- Receive new Change Cipher record.
[1743-1770] -/
def tlsNewChangeCipher : TlsProcedure Unit := do
  tlsRefuse (data ≠ [1]) .einvalChangeCipher
  tlsChangeRxCipher
  setTls fun tls => { tls with rxSeq := 2 ^ 64 - 1 }

/-- Receive new Alert record.
[1779-1811] -/
def tlsNewAlert : TlsProcedure Unit := do
  tlsRefuse (data.length ≠ 2) .einvalAlert
  tlsRefuse (data.headD 0 = 2) .epermAlert
  tlsRefuse (data.headD 0 ≠ 1) .eioAlert

/-- Restart negotiation.
[1078-1091] -/
def tlsRestart (tls : TlsConnection) : TlsConnection :=
  { tls with
    txPending := { clientHello := true }
    clientNegotiation := tls.clientNegotiation + 1
    serverNegotiation := tls.serverNegotiation + 1 }

/-- Receive new Hello Request handshake record.
[1821-1842] -/
def tlsNewHelloRequest : TlsProcedure Unit := do
  let tls ← getTls
  Procedure.whenever (tlsReady tls) do
    tlsRefuse (tls.secureRenegotiation = false) .epermRenegInsecure
    setTls tlsRestart

section

variable {world : X509World} (env : TlsEnv world)

/-- Check session ID.
[1976-2000] -/
def tlsCheckSessionId (sessionId : Bytes) : TlsProcedure Unit := do
  let tls ← getTls
  if sessionId ≠ [] ∧ sessionId = tls.sessionId then do
    tlsGenerateKeys env
    setTls fun tls => { tls with
      evidence := tls.offered.elim tls.evidence fun session => .resumed session tls.evidence
      resuming := tls.offered.isSome }
  else do
    setTls fun tls => { tls with resuming := false }
    Procedure.whenever (sessionId ≠ [] ∧ sessionId.length ≤ 32) do
      setTls fun tls => { tls with sessionId }

/-- Handle secure renegotiation.
[2002-2024] -/
def tlsCheckRenegotiation (reneg : Option Bytes) : TlsProcedure Unit := do
  let tls ← getTls
  if tls.secureRenegotiation then
    tlsRefuse (reneg ≠ some (tls.verifyClient ++ tls.verifyServer)) .epermRenegVerify
  else
    Procedure.whenever (reneg.isSome) do
      tlsRefuse (reneg ≠ some []) .epermRenegVerify
      setTls fun tls => { tls with secureRenegotiation := true }

variable (data : Bytes)

/-- Receive new Server Hello handshake record.
[1852-2027] -/
def tlsNewServerHello : TlsProcedure Unit := do
  let hello ← tlsReturns (tlsParseServerHello data)
  tlsRefuse (hello.version < tlsVersionMin) .enotsupVersion
  let tls ← getTls
  tlsRefuse (hello.version > tls.version) .eprotoVersion
  setTls fun tls => { tls with version := hello.version }
  tlsSelectCipher env hello.cipherSuite
  let tls ← getTls
  let session ← getSession
  tlsAddHandshake (tlsClientHello tls session)
  setTls fun tls => { tls with serverRandom := hello.random }
  tlsCheckSessionId env hello.sessionId
  tlsCheckRenegotiation hello.reneg

/-- Receive New Session Ticket handshake record.
[2037-2078] -/
def tlsNewSessionTicket : TlsProcedure Unit := do
  tlsRefuse (6 > data.length) .einvalTicket
  let ticketLen := bigEndianValue ((data.drop 4).take 2)
  tlsRefuse (ticketLen > data.length - 6) .einvalTicket
  setTls fun tls => { tls with newSessionTicket := [] }
  tlsAlloc env .enomem
  setTls fun tls => { tls with newSessionTicket := (data.drop 6).take ticketLen }

/-- The loop over the certificates of a chain, for at most so many of them.
[2105-2146] -/
def tlsAppendCertificatesUpTo : ℕ → Bytes → List CertId → TlsProcedure (List CertId)
  | 0, _, chain => pure chain
  | turns + 1, data, chain =>
    if data = [] then pure chain
    else do
      tlsRefuse (3 > data.length) .einvalCertificate
      let certificateLen := bigEndianValue (data.take 3)
      tlsRefuse (certificateLen > data.length - 3) .einvalCertificate
      let cert ← tlsReturns (env.certificate ((data.drop 3).take certificateLen))
      tlsAlloc env .enomem
      tlsAppendCertificatesUpTo turns (data.drop (3 + certificateLen)) (chain ++ [cert])

/-- Parse certificate chain.  After an error there is none.
[2088-2156] -/
def tlsParseChain : TlsProcedure Unit := do
  setTls fun tls => { tls with chain := none }
  tlsAlloc env .enomemChain
  let chain ← tlsAppendCertificatesUpTo env data.length data []
  setTls fun tls => { tls with chain := some chain }

/-- Receive new Certificate handshake record.
[2166-2196] -/
def tlsNewCertificate : TlsProcedure Unit := do
  tlsRefuse (3 > data.length) .einvalCertificates
  let certificatesLen := bigEndianValue (data.take 3)
  tlsRefuse (certificatesLen > data.length - 3) .einvalCertificates
  tlsParseChain env ((data.drop 3).take certificatesLen)

/-- Receive new Server Key Exchange handshake record.
[2206-2227] -/
def tlsNewServerKeyExchange : TlsProcedure Unit := do
  setTls fun tls => { tls with serverKey := [] }
  tlsAlloc env .enomem
  setTls fun tls => { tls with serverKey := data }

/-- Receive new Certificate Request handshake record.
[2237-2291] -/
def tlsNewCertificateRequest : TlsProcedure Unit := do
  setTls fun tls => { tls with certs := none }
  let tls ← getTls
  match env.certstoreFindKey tls.key with
  | none => Procedure.fail (.rc .epermClientCert)
  | some cert =>
    tlsAlloc env .enomem
    tlsAlloc env .enomem
    let oracle ← tlsAsk env
    let certs := x509AutoAppend world [cert] env.certstore oracle.links
    tlsReturns certs.1
    setTls fun tls => { tls with certs := some certs.2 }

/-- Instantiate a certificate validator, which is plugged into the connection.
[net/validator.c:629-669] -/
def tlsCreateValidator : TlsProcedure Unit := do
  let tls ← getTls
  match tls.chain with
  | none => Procedure.fail (.rc .einval)
  | some chain =>
    tlsAlloc env .enomem
    setTls fun tls => { tls with
      orphans := tls.plugged.toList ++ tls.orphans
      plugged := some chain }

/-- Receive new Server Hello Done handshake record.
[2301-2326] -/
def tlsNewServerHelloDone : TlsProcedure Unit := do
  tlsRefuse (data ≠ []) .einvalHelloDone
  tlsCreateValidator env
  setTls fun tls => { tls with validation := tls.validation + 1 }

/-- Record session ID, ticket, and master secret, if applicable, and move to the end of the
session's connection list.
[2376-2397] -/
def tlsRecordSession : TlsProcedure Unit :=
  Procedure.modify fun ctx =>
    let tls := ctx.tls
    let session := ctx.session
    let recorded := tls.sessionId ≠ [] ∨ tls.newSessionTicket ≠ []
    { ctx with
      tls := { tls with newSessionTicket := [] }
      session := { session with
        masterSecret := if recorded then tls.masterSecret else session.masterSecret
        evidence := if recorded then tls.evidence else session.evidence
        id := if tls.sessionId ≠ [] then tls.sessionId else session.id
        ticket := if tls.newSessionTicket ≠ [] then tls.newSessionTicket else session.ticket
        conn := session.conn.erase ctx.self ++ [ctx.self] } }

/-- Receive new Finished handshake record.
[2336-2404] -/
def tlsNewFinished (crypto : Crypto) (data : Bytes) : TlsProcedure Unit := do
  tlsRefuse (data.length ≠ 12) .einvalFinished
  let tls ← getTls
  let verifyServer ← tlsPrfLabel crypto tls.masterSecret 12 "server finished"
    (tlsVerifyHandshake crypto tls)
  setTls fun tls => { tls with verifyServer }
  tlsRefuse (verifyServer ≠ data) .epermVerify
  setTls fun tls => { tls with serverNegotiation := tls.serverNegotiation - 1 }
  -- the server's Finished has arrived before the client's is sent
  Procedure.whenever (tls.clientNegotiation ≠ 0) do
    setTls fun tls => { tls with
      txPending := { tls.txPending with changeCipher := true, finished := true } }
  tlsRecordSession

/-! ## Records -/

/-- Handle one handshake message.  After an error the digest does not matter.
[2443-2487] -/
def tlsHandleMessage (message : TlsMessage) : TlsProcedure Unit := do
  let data := message.payload
  let handled : TlsProcedure Unit := match message.type with
    | 0 => tlsNewHelloRequest
    | 2 => tlsNewServerHello env data
    | 4 => tlsNewSessionTicket env data
    | 11 => tlsNewCertificate env data
    | 12 => tlsNewServerKeyExchange env data
    | 13 => tlsNewCertificateRequest env
    | 14 => tlsNewServerHelloDone env data
    | 20 => tlsNewFinished world.crypto data
    | _ => pure ()
  handled
  Procedure.whenever (message.type ≠ 0) (tlsAddHandshake message.raw)

def tlsHandleMessages : List TlsMessage → TlsProcedure Unit
  | [] => pure ()
  | message :: messages => do
    tlsHandleMessage env message
    tlsHandleMessages messages

/-- Receive new Handshake record.
[2413-2494] -/
def tlsNewHandshake : TlsProcedure Unit := do
  tlsHandleMessages env (tlsMessages data).1
  setTls fun tls => { tls with rxHandshake := (tlsMessages data).2 }

/-- Receive new data record.
[2518-2540] -/
def tlsNewData : List Bytes → TlsProcedure Unit
  | [] => pure ()
  | data :: rxData => do
    let oracle ← tlsAsk env
    tlsReturns oracle.deliver
    setTls fun tls => { tls with plainstream := data :: tls.plainstream }
    tlsNewData rxData

/-- Merge into a single buffer, with the fragment before them.
[net/tls.c:2586-2594, core/iobuf.c:243-276] -/
def tlsConcatenate (fragment : Bytes) (rxData : List Bytes) : TlsProcedure Bytes := do
  let list := if fragment = [] then rxData else fragment :: rxData
  Procedure.whenever (list.length ≠ 1) (tlsAlloc env .enomemRxConcat)
  pure list.flatten

variable (type : UInt8)

/-- Receive new record.
[2550-2612] -/
def tlsNewRecord (rxData : List Bytes) : TlsProcedure Unit := do
  let tls ← getTls
  match type with
  | 23 => do
    tlsRefuse (tlsReady tls = false) .enotconn
    tlsNewData env rxData
  | 20 => do
    let data ← tlsConcatenate env [] rxData
    tlsNewChangeCipher data
  | 21 => do
    let data ← tlsConcatenate env [] rxData
    tlsNewAlert data
  | 22 => do
    let data ← tlsConcatenate env tls.rxHandshake rxData
    tlsNewHandshake env data
  | _ => do
    let _ ← tlsConcatenate env [] rxData
    pure ()

/-! ## Decryption -/

/-- The length of the padding at the end of a buffer; zero if it is not valid.
[2844-2869,2944-2953] -/
def tlsPaddingLength (last : Bytes) : ℕ :=
  match last.getLast? with
  | none => 0
  | some pad =>
    let len := pad.toNat + 1
    if len > last.length then 0
    else if (last.drop (last.length - len)).all (· = pad) then len else 0

/-- Decrypt the buffers of a record.  `cbc_decrypt` takes whole blocks off until exactly
nothing is left.
[net/tls.c:2935-2942, crypto/cbc.c:92-108] -/
def tlsDecryptBuffers (cipher : CipherAlgorithm) :
    Bytes → List Bytes → TlsProcedure (Bytes × List Bytes)
  | ctx, [] => pure (ctx, [])
  | ctx, data :: rxData => do
    Procedure.refuse (data.length % cipher.blocksize ≠ 0) .stuck
    let decrypted := (env.cipher cipher).decrypt ctx data
    let (ctx, rest) ← tlsDecryptBuffers cipher decrypted.1 rxData
    pure (ctx, decrypted.2 :: rest)

/-- Remove so many bytes from the end of the last buffer. -/
def unputLast (rxData : List Bytes) (len : ℕ) : List Bytes :=
  rxData.dropLast ++ (rxData.getLast?.map fun last => last.take (last.length - len)).toList

/-- Decrypt and authenticate a record: what `tls_new_ciphertext` does before it hands the
record on.  The buffers are not empty as a list.
[2879-3003] -/
def tlsDecrypt (version : ℕ) (rxData : List Bytes) : TlsProcedure (List Bytes) := do
  let tls ← getTls
  let spec := tls.rxCipherspec
  let suite := spec.suite
  let cipher := env.cipher suite.cipher
  let len := rxData.flatten.length
  -- initialisation vector
  let first := rxData.headD []
  tlsRefuse (first.length < suite.recordIvLen) .einvalIv
  let rxData := first.drop suite.recordIvLen :: rxData.tail
  -- unencrypted authentication tag
  let last := rxData.getLast?.getD []
  tlsRefuse (last.length < suite.cipher.authsize) .einvalMac
  let auth := last.drop (last.length - suite.cipher.authsize)
  let rxData := unputLast rxData suite.cipher.authsize
  let len := len - suite.recordIvLen - suite.cipher.authsize
  let ctx := cipher.setiv spec.cipherCtx (spec.fixedIv ++ first.take suite.recordIvLen)
  let ctx :=
    if suite.cipher.authsize = 0 then ctx
    else cipher.decryptAdditional ctx (tlsAuthHeader tls.rxSeq type version len)
  let (ctx, rxData) ← tlsDecryptBuffers env suite.cipher ctx rxData
  setTls fun tls => { tls with rxCipherspec := { spec with cipherCtx := ctx } }
  -- block padding
  let padLen :=
    if suite.cipher.blocksize > 1 then tlsPaddingLength (rxData.getLast?.getD []) else 0
  let rxData := unputLast rxData padLen
  -- decrypted MAC
  let last := rxData.getLast?.getD []
  tlsRefuse (last.length < suite.macLen) .einvalMac
  let mac := last.drop (last.length - suite.macLen)
  let rxData := unputLast rxData suite.macLen
  let authhdr := tlsAuthHeader tls.rxSeq type version (len - padLen - suite.macLen)
  let verifyMac :=
    if suite.macLen = 0 then []
    else (tlsHmac world.crypto spec authhdr rxData.flatten).take suite.macLen
  let verifyAuth := (cipher.auth ctx).take suite.cipher.authsize
  tlsRefuse (mac ≠ verifyMac) .einvalMac
  tlsRefuse (auth ≠ verifyAuth) .einvalMac
  pure rxData

/-- Handle a received record.
[2879-3010,3191-3219] -/
def tlsNewCiphertext (version : ℕ) (rxData : List Bytes) : TlsProcedure Unit := do
  let rxData ← tlsDecrypt env type version rxData
  tlsNewRecord env type rxData
  setTls fun tls => { tls with rxSeq := (tls.rxSeq + 1) % 2 ^ 64 }

end

end Ipxe.Model
