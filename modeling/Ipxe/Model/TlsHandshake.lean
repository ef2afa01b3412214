import Ipxe.Model.TlsConnection

/-!
# TLS handshake

`net/tls.c`.  The handshake messages that a client sends, and what it does with those of the server.
A server may send its messages in any order: what each of them does depends on the state of the
connection only where the source makes it so.
-/

namespace Ipxe.Model

open Library

/-! ## Messages of the client -/

/-- The type and length of a handshake message, as one word. -/
def tlsTypeLength (type : UInt8) (len : ℕ) : Bytes :=
  (type ||| UInt8.ofNat (len / 2 ^ 24)) :: bigEndian 3 len

/-- The extensions of the Client Hello.
[1130-1170,1191-1227] -/
def tlsClientHelloExtensions (tls : TlsConnection) (session : TlsSession) : Bytes :=
  let name := session.name.chars
  let sigHashes := tlsSigHashAlgorithms.flatMap fun sigHash => [sigHash.hash, sigHash.signature]
  let verify := if tls.secureRenegotiation then tls.verifyClient else []
  bigEndian 2 0 ++ bigEndian 2 (name.length + 5) ++ bigEndian 2 (name.length + 3) ++
    0 :: (bigEndian 2 name.length ++ name) ++
  bigEndian 2 1 ++ bigEndian 2 1 ++ [4] ++
  bigEndian 2 13 ++ bigEndian 2 (sigHashes.length + 2) ++ bigEndian 2 sigHashes.length ++ sigHashes ++
  bigEndian 2 0xff01 ++ bigEndian 2 (verify.length + 1) ++ UInt8.ofNat verify.length :: verify ++
  bigEndian 2 35 ++ bigEndian 2 session.ticket.length ++ session.ticket

/-- The Client Hello record.
[1118-1230] -/
def tlsClientHello (tls : TlsConnection) (session : TlsSession) : Bytes :=
  let suites := tlsCipherSuites.flatMap fun suite => bigEndian 2 suite.code
  let extensions := tlsClientHelloExtensions tls session
  let hello :=
    bigEndian 2 tlsVersionMax ++ tls.clientRandom ++
    UInt8.ofNat tls.sessionId.length :: tls.sessionId ++
    bigEndian 2 suites.length ++ suites ++ [1, 0] ++
    bigEndian 2 extensions.length ++ extensions
  tlsTypeLength 1 hello.length ++ hello

section

variable {world : X509World} (env : TlsEnv world)

/-- Transmit Client Hello record.
[1238-1241] -/
def tlsSendClientHello : TlsProcedure Unit := do
  let tls ← getTls
  let session ← getSession
  tlsSendHandshake env (tlsClientHello tls session)

/-- Transmit Certificate record.
[1249-1303] -/
def tlsSendCertificate : TlsProcedure Unit := do
  let tls ← getTls
  let certificates := (tls.certs.getD []).flatMap fun cert =>
    bigEndian 3 (world.cert cert).raw.length ++ (world.cert cert).raw
  tlsAlloc env .enomemCertificate
  tlsSendHandshake env
    (tlsTypeLength 11 (3 + certificates.length) ++ bigEndian 3 certificates.length ++ certificates)

/-- Transmit Client Key Exchange record using public key exchange.
[1311-1368] -/
def tlsSendClientKeyExchangePubkey : TlsProcedure Unit := do
  let random ← tlsGenerateRandom env 46
  let preMasterSecret := bigEndian 2 tlsVersionMax ++ random
  tlsGenerateMasterSecret world.crypto preMasterSecret
  tlsGenerateKeys env
  let tls ← getTls
  let spec := tls.txCipherspecPending
  let encrypted ← tlsReturns (match spec.suite.pubkey with
    | none => .ok []
    | some pubkey => env.pubkeyEncrypt pubkey spec.pubkeyCtx preMasterSecret)
  tlsSendHandshake env
    (tlsTypeLength 16 (2 + encrypted.length) ++ bigEndian 2 encrypted.length ++ encrypted)

/-- A value with its length in front, and what follows it. -/
def tlsDhValue (data : Bytes) : Option (Bytes × Bytes) :=
  match data with
  | high :: low :: data =>
    let len := high.toNat * 256 + low.toNat
    if len > data.length then none else some (data.take len, data.drop len)
  | _ => none

/-- The contents of a Server Key Exchange record: the three Diffie-Hellman values with the
record up to them, the signature algorithm, if there is one, and the signature. -/
structure TlsServerKey where
  dhP : Bytes
  dhG : Bytes
  dhYs : Bytes
  signed : Bytes
  sigHash : Option (UInt8 × UInt8)
  signature : Bytes

/-- See 1402-1438 -/
def tlsParseServerKey (useSigHash : Bool) (serverKey : Bytes) : Option TlsServerKey := do
  let (dhP, rest) ← tlsDhValue serverKey
  let (dhG, rest) ← tlsDhValue rest
  let (dhYs, rest) ← tlsDhValue rest
  let signed := serverKey.take (serverKey.length - rest.length)
  if useSigHash then
    match rest with
    | hash :: signature :: rest =>
      let value ← tlsDhValue rest
      some ⟨dhP, dhG, dhYs, signed, some (hash, signature), value.1⟩
    | _ => none
  else
    let value ← tlsDhValue rest
    some ⟨dhP, dhG, dhYs, signed, none, value.1⟩

/-- The algorithms that the signature of a Server Key Exchange record is checked with.
[1440-1462] -/
def tlsServerKeyAlgorithms (suite : TlsCipherSuite) (sigHash : Option (UInt8 × UInt8)) :
    Except Errno (Option PubkeyAlgorithm × TlsDigest) :=
  match sigHash with
  | none => .ok (suite.pubkey, .md5Sha1)
  | some (hash, signature) =>
    match tlsSignatureHashPubkey signature, tlsSignatureHashDigest hash with
    | some pubkey, some digest =>
      if some pubkey ≠ suite.pubkey then .error .epermKeyExchange
      else .ok (some pubkey, .single digest)
    | _, _ => .error .enotsupSigHash

/-- Transmit Client Key Exchange record using DHE key exchange.
[1382-1567] -/
def tlsSendClientKeyExchangeDhe : TlsProcedure Unit := do
  let tls ← getTls
  let spec := tls.txCipherspecPending
  let serverKey ← tlsReturns
    (match tlsParseServerKey (tls.version ≥ 0x0303) tls.serverKey with
    | none => .error .einvalKeyExchange
    | some serverKey => .ok serverKey)
  let (pubkey, digest) ← tlsReturns (tlsServerKeyAlgorithms spec.suite serverKey.sigHash)
  let hash := digest.hash world.crypto (tls.clientRandom ++ tls.serverRandom ++ serverKey.signed)
  let verified : Except Errno Unit := match pubkey with
    | none => .ok ()
    | some pubkey => env.pubkeyVerify pubkey spec.pubkeyCtx digest hash serverKey.signature
  tlsRefuse (verified ≠ .ok ()) .epermKeyExchange
  let privateKey ← tlsGenerateRandom env 28
  tlsAlloc env .enomem
  let (dhXs, preMasterSecret) ← tlsReturns
    (env.dheKey serverKey.dhP serverKey.dhG serverKey.dhYs privateKey)
  tlsGenerateMasterSecret world.crypto (preMasterSecret.dropWhile (· = 0))
  tlsGenerateKeys env
  tlsSendHandshake env (tlsTypeLength 16 (2 + dhXs.length) ++ bigEndian 2 dhXs.length ++ dhXs)

/-- Transmit Client Key Exchange record.
[1581-1587] -/
def tlsSendClientKeyExchange : TlsProcedure Unit := do
  let tls ← getTls
  match tls.txCipherspecPending.suite.exchange with
  | .pubkey => tlsSendClientKeyExchangePubkey env
  | .dhe => tlsSendClientKeyExchangeDhe env

/-- Transmit Certificate Verify record.  A parsed certificate has a public-key algorithm, and
there is a certificate whenever this is called.
[1595-1677] -/
def tlsSendCertificateVerify : TlsProcedure Unit := do
  let tls ← getTls
  let digestOut := tlsVerifyHandshake world.crypto tls
  match (tls.certs.getD []).head?.bind fun cert => (world.cert cert).signatureAlgorithm.pubkey with
  | none => Procedure.fail .stuck
  | some pubkey =>
    let key := env.privkey tls.key
    tlsReturns (world.crypto.pubkeyInit pubkey key)
    let sigHash ← tlsReturns (
      if tls.version ≥ 0x0303 then
        match tlsSignatureHashAlgorithm pubkey tls.handshakeDigest with
        | none => .error .enotsupSigHash
        | some sigHash => .ok [sigHash.hash, sigHash.signature]
      else .ok [])
    let signature ← tlsReturns (env.pubkeySign pubkey key tls.handshakeDigest digestOut)
    let message := sigHash ++ bigEndian 2 signature.length ++ signature
    tlsSendHandshake env (tlsTypeLength 15 message.length ++ message)

/-- Transmit Change Cipher record.
[1685-1694] -/
def tlsSendChangeCipher : TlsProcedure Unit := tlsSendPlaintext env 20 [1]

/-- Transmit Finished record.
[1702-1734] -/
def tlsSendFinished : TlsProcedure Unit := do
  let tls ← getTls
  let verifyClient ← tlsPrfLabel world.crypto tls.masterSecret 12 "client finished"
    (tlsVerifyHandshake world.crypto tls)
  setTls fun tls => { tls with verifyClient }
  tlsSendHandshake env (tlsTypeLength 20 12 ++ verifyClient)
  setTls fun tls => { tls with clientNegotiation := tls.clientNegotiation - 1 }

end

end Ipxe.Model
