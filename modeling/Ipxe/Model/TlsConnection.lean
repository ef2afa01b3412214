import Ipxe.Library.MultiWord
import Ipxe.Library.Procedure
import Ipxe.Model.TlsCipher
import Ipxe.Model.X509Validate

/-!
# TLS connections and sessions

`net/tls.c`.  A function works on a connection, its session and what it has asked from outside so
far: allocations, random data and deliveries are answered by an oracle, a fresh one each time.  It
may return an error, and it may get stuck: not return, or use memory that it does not have.  The
transmit process can run at any time.
-/

namespace Ipxe.Model

open Library

/-! ## State -/

/-- The answers from outside. -/
structure TlsOracle where
  malloc : Bool
  random : Except Errno (ℕ → UInt8)
  /-- whether `xfer_deliver_iob` succeeds -/
  deliver : Except Errno Unit
  /-- what uninitialised memory holds -/
  garbage : ℕ → UInt8
  /-- the bytes of the time -/
  time : Bytes
  /-- how many links of a certificate chain can be allocated -/
  links : ℕ

/-- What connections depend on. -/
structure TlsEnv (world : X509World) extends X509Objects world, TlsCrypto where
  socket : SocketEnv
  /-- the certificate store -/
  certstore : List CertId
  /-- the contents of a private key -/
  privkey : ℕ → Bytes
  /-- `certstore_find_key` -/
  certstoreFindKey : ℕ → Option CertId
  oracle : ℕ → TlsOracle

/-- Where trust in the server of a connection comes from: certificate chains that the
validator has finished with successfully, and sessions that were resumed, each with the
evidence that the connection had that established it.  No function reads it. -/
inductive TlsEvidence where
  | none
  | validated (chain : List CertId) (before : TlsEvidence)
  | resumed (session before : TlsEvidence)
  deriving DecidableEq, Repr

/-- A cipher specification; what `tls_clear_cipher` makes of it is the default.
[include/ipxe/tls.h:211-224, net/tls.c:852-862] -/
structure TlsCipherspec where
  suite : TlsCipherSuite := tlsCipherSuiteNull
  /-- the key that the public-key context was initialised with -/
  pubkeyCtx : Option Bytes := none
  cipherCtx : Bytes := []
  macSecret : Bytes := []
  fixedIv : Bytes := []
  deriving DecidableEq, Repr

/-- See include/ipxe/tls.h:152-160 -/
structure TlsTxPending where
  clientHello : Bool := false
  certificate : Bool := false
  clientKeyExchange : Bool := false
  certificateVerify : Bool := false
  changeCipher : Bool := false
  finished : Bool := false
  deriving DecidableEq, Repr

/-- A TLS connection.  Counters stand for pending operations.  `plugged` is the chain of the
validator plugged in, `orphans` are those of earlier ones that still report.  `cipherstream` and
`plainstream` are what was delivered there, the latest first.  `offered` belongs to the session
that the last Client Hello has offered, and `resuming` says that the last Server Hello accepted it.
[include/ipxe/tls.h:318-403] -/
structure TlsConnection where
  session : ℕ
  sessionId : Bytes := []
  newSessionTicket : Bytes := []
  version : ℕ := tlsVersionMax
  txCipherspec : TlsCipherspec := {}
  txCipherspecPending : TlsCipherspec := {}
  rxCipherspec : TlsCipherspec := {}
  rxCipherspecPending : TlsCipherspec := {}
  masterSecret : Bytes := List.replicate 48 0
  serverRandom : Bytes := List.replicate 32 0
  clientRandom : Bytes
  serverKey : Bytes := []
  handshakeDigest : TlsDigest := .null
  /-- what the handshake digest has been fed -/
  handshake : Bytes := []
  key : ℕ
  root : RootId
  certs : Option (List CertId) := none
  secureRenegotiation : Bool := false
  verifyClient : Bytes := List.replicate 12 0
  verifyServer : Bytes := List.replicate 12 0
  chain : Option (List CertId) := none
  plugged : Option (List CertId) := none
  orphans : List (List CertId) := []
  clientNegotiation : ℕ := 0
  serverNegotiation : ℕ := 0
  validation : ℕ := 0
  txSeq : ℕ := 0
  txPending : TlsTxPending := {}
  rxSeq : ℕ := 0
  rxHandshake : Bytes := []
  cipherstream : List Bytes := []
  plainstream : List Bytes := []
  /-- why the connection was closed, if it was -/
  closed : Option (Except Errno Unit) := none
  freed : Bool := false
  evidence : TlsEvidence := .none
  offered : Option TlsEvidence := none
  resuming : Bool := false

/-- A TLS session: `conn` lists its connections by number.  `evidence` is that of the
connection which the master secret is from.
[include/ipxe/tls.h:287-316] -/
structure TlsSession where
  name : CString
  root : RootId
  key : ℕ
  id : Bytes := []
  ticket : Bytes := []
  masterSecret : Bytes := List.replicate 48 0
  conn : List ℕ := []
  freed : Bool := false
  evidence : TlsEvidence := .none

/-- What a function works on. -/
structure TlsContext where
  self : ℕ
  tls : TlsConnection
  session : TlsSession
  turn : ℕ

inductive TlsFault where
  | rc (rc : Errno)
  | stuck
  deriving DecidableEq, Repr

abbrev TlsProcedure (α : Type) : Type := Procedure TlsFault TlsContext α

/-- Determine if TLS connection is ready for application data.
[249-252] -/
def tlsReady (tls : TlsConnection) : Bool := tls.clientNegotiation = 0 ∧ tls.serverNegotiation = 0

def getTls : TlsProcedure TlsConnection := fun ctx => (.ok ctx.tls, ctx)

def getSession : TlsProcedure TlsSession := fun ctx => (.ok ctx.session, ctx)

def setTls (f : TlsConnection → TlsConnection) : TlsProcedure Unit :=
  Procedure.modify fun ctx => { ctx with tls := f ctx.tls }

def tlsReturns {α : Type} (result : Except Errno α) : TlsProcedure α :=
  Procedure.result (result.mapError .rc)

def tlsRefuse (c : Prop) [Decidable c] (rc : Errno) : TlsProcedure Unit :=
  Procedure.refuse c (.rc rc)

section

variable {world : X509World} (env : TlsEnv world)

def tlsAsk : TlsProcedure TlsOracle := fun ctx =>
  (.ok (env.oracle ctx.turn), { ctx with turn := ctx.turn + 1 })

/-- An allocation, and the error if it fails. -/
def tlsAlloc (rc : Errno) : TlsProcedure Unit := do
  let oracle ← tlsAsk env
  tlsRefuse (oracle.malloc = false) rc

/-- See 449-463 -/
def tlsGenerateRandom (len : ℕ) : TlsProcedure Bytes := do
  let oracle ← tlsAsk env
  let random ← tlsReturns oracle.random
  pure ((List.range len).map random)

variable (crypto : Crypto)

/-- See 602-616 -/
def tlsPrfLabel (secret : Bytes) (outLen : ℕ) (label : String)
    (seeds : Bytes) : TlsProcedure Bytes := do
  let tls ← getTls
  match tlsPrf crypto tls.version tls.handshakeDigest secret outLen (ascii label ++ seeds) with
  | none => Procedure.fail .stuck
  | some out => pure out

/-- Generate master secret.
[632-651] -/
def tlsGenerateMasterSecret (preMasterSecret : Bytes) : TlsProcedure Unit := do
  let tls ← getTls
  let masterSecret ← tlsPrfLabel crypto preMasterSecret 48 "master secret"
    (tls.clientRandom ++ tls.serverRandom)
  setTls fun tls => { tls with masterSecret }

/-- Generate key material.  If the pending receive cipher has been activated already, there
is no storage left for its secrets.
[660-731] -/
def tlsGenerateKeys : TlsProcedure Unit := do
  let tls ← getTls
  let tx := tls.txCipherspecPending
  let rx := tls.rxCipherspecPending
  let hashSize := tx.suite.macLen
  let keySize := tx.suite.keyLen
  let ivSize := tx.suite.fixedIvLen
  let total := 2 * (hashSize + keySize + ivSize)
  let block ← tlsPrfLabel world.crypto tls.masterSecret total "key expansion"
    (tls.serverRandom ++ tls.clientRandom)
  Procedure.refuse (rx.suite.macLen < hashSize) .stuck
  let keys := block.drop (2 * hashSize)
  let ivs := keys.drop (2 * keySize)
  let txCtx ← tlsReturns ((env.cipher tx.suite.cipher).setkey tx.cipherCtx (keys.take keySize))
  let rxCtx ← tlsReturns
    ((env.cipher rx.suite.cipher).setkey rx.cipherCtx ((keys.drop keySize).take keySize))
  Procedure.refuse (rx.suite.fixedIvLen < ivSize) .stuck
  setTls fun tls => { tls with
    txCipherspecPending := { tx with
      macSecret := block.take hashSize
      cipherCtx := txCtx
      fixedIv := ivs.take ivSize }
    rxCipherspecPending := { rx with
      macSecret := (block.drop hashSize).take hashSize
      cipherCtx := rxCtx
      fixedIv := (ivs.drop ivSize).take ivSize } }

/-- See 745-776 -/
def tlsSelectHandshake (digest : TlsDigest) : TlsProcedure Unit := do
  setTls fun tls => { tls with handshakeDigest := .null, handshake := [] }
  tlsAlloc env .enomem
  setTls fun tls => { tls with handshakeDigest := digest }

/-- See 786-792 -/
def tlsAddHandshake (data : Bytes) : TlsProcedure Unit :=
  setTls fun tls => { tls with handshake := tls.handshake ++ data }

/-- Calculate the digest over all handshake messages seen so far.
[802-808] -/
def tlsVerifyHandshake (tls : TlsConnection) : Bytes :=
  tls.handshakeDigest.hash crypto tls.handshake

/-- Set cipher suite; `store` puts the specification in its place.
[872-905] -/
def tlsSetCipher (store : TlsCipherspec → TlsConnection → TlsConnection)
    (suite : TlsCipherSuite) : TlsProcedure Unit := do
  setTls (store {})
  tlsAlloc env .enomemContext
  setTls (store {
    suite
    cipherCtx := List.replicate (env.cipher suite.cipher).ctxsize 0
    macSecret := List.replicate suite.macLen 0
    fixedIv := List.replicate suite.fixedIvLen 0 })

/-- Select next cipher suite.
[914-948] -/
def tlsSelectCipher (cipherSuite : ℕ) : TlsProcedure Unit :=
  match tlsFindCipherSuite cipherSuite with
  | none => Procedure.fail (.rc .enotsupCipher)
  | some suite => do
    let tls ← getTls
    tlsSelectHandshake env (if tls.version ≥ 0x0303 then suite.handshake else .md5Sha1)
    tlsSetCipher env (fun spec tls => { tls with txCipherspecPending := spec }) suite
    tlsSetCipher env (fun spec tls => { tls with rxCipherspecPending := spec }) suite

/-- Activate next cipher suite for transmission.
[958-971] -/
def tlsChangeTxCipher : TlsProcedure Unit := do
  let tls ← getTls
  tlsRefuse (tls.txCipherspecPending.suite = tlsCipherSuiteNull) .enotsupNull
  setTls fun tls => { tls with
    txCipherspec := tls.txCipherspecPending
    txCipherspecPending := {} }

/-- Activate next cipher suite for reception.
[958-971] -/
def tlsChangeRxCipher : TlsProcedure Unit := do
  let tls ← getTls
  tlsRefuse (tls.rxCipherspecPending.suite = tlsCipherSuiteNull) .enotsupNull
  setTls fun tls => { tls with
    rxCipherspec := tls.rxCipherspecPending
    rxCipherspecPending := {} }

/-- See include/ipxe/tls.h:132-138 -/
def tlsAuthHeader (seq : ℕ) (type : UInt8) (version len : ℕ) : Bytes :=
  bigEndian 8 seq ++ type :: (bigEndian 2 version ++ bigEndian 2 len)

variable (cipherspec : TlsCipherspec)

/-- See 2675-2684 -/
def tlsHmac (authhdr data : Bytes) : Bytes :=
  cipherspec.suite.digest.hmac crypto (cipherspec.macSecret.take cipherspec.suite.macLen)
    (authhdr ++ data)

/-- The plaintext of a record: the data, its MAC and the padding.
[2752-2782] -/
def tlsAssemblePlaintext (authhdr data : Bytes) : Bytes :=
  let suite := cipherspec.suite
  let mac :=
    if suite.macLen = 0 then [] else (tlsHmac crypto cipherspec authhdr data).take suite.macLen
  let blocksize := suite.cipher.blocksize
  -- `( ( blocksize - 1 ) & -( plaintext_len + 1 ) ) + 1`
  let paddingLen := if blocksize > 1 then blocksize - (data.length + suite.macLen) % blocksize else 0
  data ++ mac ++ List.replicate paddingLen (UInt8.ofNat (paddingLen - 1))

/-- Send plaintext record.  A failure to generate the record's initialisation vector is
ignored.
[2718-2834] -/
def tlsSendPlaintext (type : UInt8) (data : Bytes) : TlsProcedure Unit := do
  let tls ← getTls
  let spec := tls.txCipherspec
  let cipher := env.cipher spec.suite.cipher
  let oracle ← tlsAsk env
  let recordIv := (List.range spec.suite.recordIvLen).map (oracle.random.toOption.getD oracle.garbage)
  let authhdr := tlsAuthHeader tls.txSeq type tls.version data.length
  tlsAlloc env .enomemTxPlaintext
  let plaintext := tlsAssemblePlaintext world.crypto spec authhdr data
  let ctx := cipher.setiv spec.cipherCtx (spec.fixedIv ++ recordIv)
  let ctx := if spec.suite.cipher.authsize = 0 then ctx else cipher.encryptAdditional ctx authhdr
  setTls fun tls => { tls with txCipherspec := { spec with cipherCtx := ctx } }
  tlsAlloc env .enomemTxCiphertext
  let ciphertext := cipher.encrypt ctx plaintext
  let auth := (cipher.auth ciphertext.1).take spec.suite.cipher.authsize
  setTls fun tls => { tls with txCipherspec := { spec with cipherCtx := ciphertext.1 } }
  let payload := recordIv ++ ciphertext.2 ++ auth
  let oracle ← tlsAsk env
  tlsReturns oracle.deliver
  setTls fun tls => { tls with
    cipherstream := (type :: (bigEndian 2 tls.version ++ bigEndian 2 payload.length) ++ payload) ::
      tls.cipherstream
    txSeq := (tls.txSeq + 1) % 2 ^ 64 }

/-- Transmit Handshake record.
[1101-1109] -/
def tlsSendHandshake (data : Bytes) : TlsProcedure Unit := do
  tlsAddHandshake data
  tlsSendPlaintext env 22 data

end

end Ipxe.Model
