import Ipxe.Model.Crypto
import Ipxe.Model.Encodings

/-!
# iSCSI login

`net/tcp/iscsi.c`.  The login requests that are sent, and the handling of login responses with their
text keys, redirections and phase transitions.  Received PDUs are taken as whole.  Memory, random
numbers and sockets come from an `IscsiOracle`; each text key, PDU and connection asks another one.
-/

namespace Ipxe.Model

/-! ## Sessions -/

/-- What the outside does while something is handled. -/
structure IscsiOracle where
  /-- whether the n-th allocation succeeds -/
  malloc : ℕ → Bool
  /-- what allocated memory holds -/
  heap : ℕ → UInt8
  random : ℕ → UInt8
  openSocket : Except Errno Unit

/-- What a session is given: its settings and the outside. -/
structure IscsiEnv where
  crypto : Crypto
  ulongBits : ℕ
  initiatorIqn : CString
  targetIqn : CString
  targetAddress : CString
  targetPort : ℕ
  initiatorUsername : Option CString
  initiatorPassword : Option CString
  targetUsername : Option CString
  targetPassword : Option CString
  oracle : ℕ → IscsiOracle

/-- The phase bits of the status.
[include/ipxe/iscsi.h:668-684] -/
inductive IscsiPhase where
  | none | securityNegotiation | operationalNegotiation | fullFeature
  deriving DecidableEq, Repr

def IscsiPhase.bits : IscsiPhase → UInt8
  | none => 0x00
  | securityNegotiation => 0x01
  | operationalNegotiation => 0x07
  | fullFeature => 0x0c

/-- The strings that need to be sent.
[include/ipxe/iscsi.h:686-702] -/
structure IscsiStrings where
  security : Bool := false
  chapAlgorithm : Bool := false
  chapResponse : Bool := false
  chapChallenge : Bool := false
  operational : Bool := false
  deriving DecidableEq, Repr

/-- See include/ipxe/iscsi.h:668-711 -/
structure IscsiStatus where
  phase : IscsiPhase := .none
  strings : IscsiStrings := {}
  authForwardRequired : Bool := false
  authReverseRequired : Bool := false
  authReverseOk : Bool := false
  deriving DecidableEq, Repr

/-- A CHAP response: what its digest has been fed, if there is one, and the response.
[include/ipxe/chap.h:18-28] -/
structure ChapResponse where
  fed : Option Bytes := none
  response : Bytes := []
  deriving DecidableEq, Repr

inductive IscsiTxState where
  | idle | bhs | ahs | data
  deriving DecidableEq, Repr

inductive IscsiOpcode where
  | nopOut | scsiCommand | loginRequest
  deriving DecidableEq, Repr

/-- The part of the basic header segment that transmission depends on. -/
structure IscsiTxBhs where
  opcode : IscsiOpcode := .nopOut
  flags : UInt8 := 0
  dataLen : ℕ := 0
  deriving DecidableEq, Repr

/-- What happens on the connections of a session, as far as authentication goes. -/
inductive IscsiRecord where
  | opened
  | generated (challenge : Bytes)
  /-- the data segment of a login request -/
  | sent (data : Bytes)
  /-- the value of a CHAP_R key -/
  | presented (response : Bytes)
  deriving DecidableEq, Repr

/-- An iSCSI session.  `turn` counts the uses of the oracle; `trace` remembers what has
happened, the latest first, and no function reads it.
[include/ipxe/iscsi.h:544-665] -/
structure IscsiSession where
  targetAddress : Option Bytes
  targetPort : ℕ
  status : IscsiStatus := {}
  chapChallenge : Bytes := List.replicate 17 0
  chap : ChapResponse := {}
  maxBurstLen : ℕ := 0
  txBhs : IscsiTxBhs := {}
  txState : IscsiTxState := .idle
  /-- whether there is a current SCSI command -/
  command : Bool := false
  /-- why the session has been shut down, if it has -/
  closed : Option Errno := .none
  turn : ℕ := 0
  trace : List IscsiRecord := []

/-- See crypto/chap.c:51-76 -/
def chapInit (oracle : IscsiOracle) (allocation : ℕ) : Except Errno ChapResponse :=
  if !oracle.malloc allocation then .error .enomem
  else .ok ⟨some [], (List.range DigestAlgorithm.md5.digestsize).map oracle.heap⟩

/-- See crypto/chap.c:85-94 -/
def chapUpdate (chap : ChapResponse) (data : Bytes) : ChapResponse :=
  { chap with fed := chap.fed.map (· ++ data) }

/-- See include/ipxe/chap.h:46-51 -/
def chapSetIdentifier (chap : ChapResponse) (identifier : ℕ) : ChapResponse :=
  chapUpdate chap [UInt8.ofNat identifier]

/-- See crypto/chap.c:104-115 -/
def chapRespond (crypto : Crypto) (chap : ChapResponse) : ChapResponse :=
  match chap.fed with
  | none => chap
  | some fed => { chap with response := (crypto.digest .md5).hash fed }

/-! ## Login requests -/

section

variable (env : IscsiEnv)

def printString (string : Option CString) : Bytes :=
  match string with
  | none => ascii "<NULL>"
  | some string => string.chars

/-- The method of authentication that is asked for.
[697-705] -/
def iscsiAuthMethod : Bytes :=
  if env.targetUsername.isSome then ascii "CHAP"
  else if env.initiatorUsername.isSome then ascii "CHAP,None"
  else ascii "None"

/-- The strings that carry the challenge for the target.
[730-738] -/
def iscsiChallengeStrings (challenge : Bytes) : Bytes :=
  ascii "CHAP_I=" ++ decimal (challenge.headD 0).toNat ++ [0] ++
    ascii "CHAP_C=0x" ++ base16Encode challenge.tail ++ [0]

/-- See 740-761 -/
def iscsiOperationalStrings : Bytes :=
  ascii "HeaderDigest=None" ++ [0] ++ ascii "DataDigest=None" ++ [0] ++
  ascii "MaxConnections=1" ++ [0] ++ ascii "InitialR2T=Yes" ++ [0] ++
  ascii "ImmediateData=No" ++ [0] ++ ascii "MaxRecvDataSegmentLength=8192" ++ [0] ++
  ascii "MaxBurstLength=262144" ++ [0] ++ ascii "FirstBurstLength=65536" ++ [0] ++
  ascii "DefaultTime2Wait=0" ++ [0] ++ ascii "DefaultTime2Retain=0" ++ [0] ++
  ascii "MaxOutstandingR2T=1" ++ [0] ++ ascii "DataPDUInOrder=Yes" ++ [0] ++
  ascii "DataSequenceInOrder=Yes" ++ [0] ++ ascii "ErrorRecoveryLevel=0" ++ [0]

variable (iscsi : IscsiSession)

/-- Build iSCSI login request strings.
[692-764] -/
def iscsiBuildLoginRequestStrings : Bytes :=
  let strings := iscsi.status.strings
  (if strings.security then
    ascii "InitiatorName=" ++ env.initiatorIqn.chars ++ [0] ++
    ascii "TargetName=" ++ env.targetIqn.chars ++ [0] ++
    ascii "SessionType=Normal" ++ [0] ++ ascii "AuthMethod=" ++ iscsiAuthMethod env ++ [0] else []) ++
  (if strings.chapAlgorithm then ascii "CHAP_A=5" ++ [0] else []) ++
  (if strings.chapResponse then
    ascii "CHAP_N=" ++ printString env.initiatorUsername ++ [0] ++
    ascii "CHAP_R=0x" ++ base16Encode iscsi.chap.response ++ [0] else []) ++
  (if strings.chapChallenge then iscsiChallengeStrings iscsi.chapChallenge else []) ++
  (if strings.operational then iscsiOperationalStrings else [])

/-- Build iSCSI login request BHS, and initiate transmission.
[771-805,1439-1451] -/
def iscsiStartLogin : IscsiSession :=
  { iscsi with
    txState := .bhs
    txBhs := {
      opcode := .loginRequest
      flags := iscsi.status.phase.bits ||| 0x80
      dataLen := (iscsiBuildLoginRequestStrings env iscsi).length % 2 ^ 24 } }

/-- Complete iSCSI login request PDU transmission.
[813-820] -/
def iscsiLoginRequestDone : IscsiSession :=
  { iscsi with status := { iscsi.status with strings := {} }, chap := {} }

/-- The strings as they are printed into a buffer of the length that the header has
announced; they may have changed since.  What is not written remains as it was.
[830-846] -/
def iscsiLoginData (strings : Bytes) (len : ℕ) (heap : ℕ → UInt8) : Bytes :=
  let room := (List.range len).map heap
  if strings = [] ∨ len = 0 then room
  else if strings.length < len then strings ++ 0 :: room.drop (strings.length + 1)
  else strings.take (len - 1) ++ [0]

/-- Shut down iSCSI interface.
[224-238] -/
def iscsiClose (rc : Except Errno Unit) : IscsiSession :=
  match rc with
  | .ok () => { iscsi with closed := some .econnreset }
  | .error rc => { iscsi with closed := some rc }

/-- Destroy session on error.
[1763-1772,2245-2252] -/
def iscsiDone (result : Except Errno Unit × IscsiSession) : IscsiSession :=
  match result with
  | (.error rc, iscsi) => iscsiClose iscsi (.error rc)
  | (.ok (), iscsi) => iscsi

/-- Open iSCSI transport-layer connection.
[257-296] -/
def iscsiOpenConnection : Except Errno Unit × IscsiSession :=
  let oracle := env.oracle iscsi.turn
  let iscsi := { iscsi with turn := iscsi.turn + 1 }
  match oracle.openSocket with
  | .error rc => (.error rc, iscsi)
  | .ok () =>
    let status : IscsiStatus := {
      phase := .securityNegotiation
      strings := { security := true }
      authReverseRequired := env.targetUsername.isSome }
    let iscsi := { iscsi with status, maxBurstLen := 262144, trace := .opened :: iscsi.trace }
    (.ok (), iscsiStartLogin env iscsi)

/-- Close iSCSI transport-layer connection.
[307-323] -/
def iscsiCloseConnection : IscsiSession :=
  { iscsi with status := {}, txState := .idle, chap := {} }

/-! ## Text keys -/

/-- Decode large binary value.
[856-870] -/
def iscsiLargeBinaryDecode (encoded : Bytes) : Except Errno Bytes :=
  match encoded with
  | zero :: kind :: digits =>
    if zero ≠ 0x30 then .error .eprotoInvalidLargeBinary
    else if tolower kind = 0x78 then base16Decode digits
    else if tolower kind = 0x62 then do
      let (len, raw) ← base64Decode digits encoded.length
      .ok (raw.take len)
    else .error .eprotoInvalidLargeBinary
  | _ => .error .eprotoInvalidLargeBinary

/-- A function that handles the value of a text key. -/
abbrev IscsiHandler :=
  IscsiEnv → IscsiOracle → IscsiSession → Bytes → Except Errno Unit × IscsiSession

/-- The default port is stored in network byte order.
[879-900] -/
def iscsiHandleTargetaddressValue : IscsiHandler := fun env oracle iscsi value =>
  if !oracle.malloc 0 then (.error .enomem, { iscsi with targetAddress := none })
  else
    match strchr value 0x3a with
    | none => (.ok (), { iscsi with targetAddress := some value, targetPort := 0xbc0c })
    | some separator =>
      (.ok (), { iscsi with
        targetAddress := some (value.take (value.length - separator.length))
        targetPort := (strtoul env.ulongBits separator.tail 0).1 % 2 ^ 32 })

/-- See 909-921 -/
def iscsiHandleAuthmethodValue : IscsiHandler := fun _ _ iscsi value =>
  if value = ascii "CHAP" then
    let strings := { iscsi.status.strings with chapAlgorithm := true }
    (.ok (), { iscsi with status := { iscsi.status with strings, authForwardRequired := true } })
  else (.ok (), iscsi)

/-- See 930-946 -/
def iscsiHandleMaxburstlengthValue : IscsiHandler := fun env _ iscsi value =>
  let maxBurstLen := strtoul env.ulongBits value 0
  if maxBurstLen.2 ≠ [] then (.error .einvalMaxburstlength, iscsi)
  else if maxBurstLen.1 < iscsi.maxBurstLen then
    (.ok (), { iscsi with maxBurstLen := maxBurstLen.1 })
  else (.ok (), iscsi)

/-- See 955-969 -/
def iscsiHandleChapAValue : IscsiHandler := fun _ _ iscsi value =>
  if value ≠ ascii "5" then (.error .eprotoInvalidChapAlgorithm, iscsi) else (.ok (), iscsi)

/-- See 978-1010 -/
def iscsiHandleChapIValue : IscsiHandler := fun env oracle iscsi value =>
  let identifier := strtoul env.ulongBits value 0
  if identifier.2 ≠ [] then (.error .eprotoInvalidChapIdentifier, iscsi)
  else
    match chapInit oracle 0 with
    | .error rc => (.error rc, { iscsi with chap := {} })
    | .ok chap =>
      let chap := chapSetIdentifier chap identifier.1
      let chap := env.initiatorPassword.elim chap fun password => chapUpdate chap password.chars
      (.ok (), { iscsi with chap })

/-- The target's challenge is answered, and one for the target is generated.
[1019-1065] -/
def iscsiHandleChapCValue : IscsiHandler := fun env oracle iscsi value =>
  if !oracle.malloc 0 then (.error .enomem, iscsi)
  else
    match iscsiLargeBinaryDecode value with
    | .error rc => (.error rc, iscsi)
    | .ok challenge =>
      let chap := chapRespond env.crypto (chapUpdate iscsi.chap challenge)
      let strings := { iscsi.status.strings with chapResponse := true }
      let iscsi := { iscsi with chap, status := { iscsi.status with strings } }
      if env.targetUsername.isSome then
        let chapChallenge := (List.range 17).map oracle.random
        let strings := { strings with chapChallenge := true }
        (.ok (), { iscsi with
          chapChallenge
          status := { iscsi.status with strings }
          trace := .generated chapChallenge :: iscsi.trace })
      else (.ok (), iscsi)

/-- See 1074-1094 -/
def iscsiHandleChapNValue : IscsiHandler := fun env _ iscsi value =>
  if env.targetUsername.any fun username => username.chars ≠ value then
    (.error .eaccesIncorrectTargetUsername, iscsi)
  else (.ok (), iscsi)

/-- The response that the target is expected to present.
[1116-1124] -/
def iscsiExpectedResponse (chap : ChapResponse) (challenge : Bytes) : ChapResponse :=
  let chap := chapSetIdentifier chap (challenge.headD 0).toNat
  let chap := env.targetPassword.elim chap fun password => chapUpdate chap password.chars
  chapRespond env.crypto (chapUpdate chap challenge.tail)

/-- See 1103-1166 -/
def iscsiHandleChapRValue : IscsiHandler := fun env oracle iscsi value =>
  match chapInit oracle 0 with
  | .error rc => (.error rc, { iscsi with chap := {} })
  | .ok chap =>
    let chap := iscsiExpectedResponse env chap iscsi.chapChallenge
    let iscsi := { iscsi with chap }
    if !oracle.malloc 1 then (.error .enomem, iscsi)
    else
      match iscsiLargeBinaryDecode value with
      | .error rc => (.error rc, iscsi)
      | .ok response =>
        let iscsi := { iscsi with trace := .presented response :: iscsi.trace }
        if response.length ≠ chap.response.length then
          (.error .eprotoInvalidChapResponse, iscsi)
        else if response ≠ chap.response then (.error .eaccesIncorrectTargetPassword, iscsi)
        else (.ok (), { iscsi with status := { iscsi.status with authReverseOk := true } })

/-- `iscsi_string_types`.
[1185-1196] -/
def iscsiStringTypes : List (Bytes × IscsiHandler) :=
  [(ascii "TargetAddress", iscsiHandleTargetaddressValue),
   (ascii "MaxBurstLength", iscsiHandleMaxburstlengthValue),
   (ascii "AuthMethod", iscsiHandleAuthmethodValue),
   (ascii "CHAP_A", iscsiHandleChapAValue),
   (ascii "CHAP_I", iscsiHandleChapIValue),
   (ascii "CHAP_C", iscsiHandleChapCValue),
   (ascii "CHAP_N", iscsiHandleChapNValue),
   (ascii "CHAP_R", iscsiHandleChapRValue)]

/-- Handle iSCSI string.  A key that is the beginning of a known one is taken for it
(`strncmp ( string, type->key, key_len )`).
[1205-1245] -/
def iscsiHandleString (string : Bytes) : Except Errno Unit × IscsiSession :=
  match strchr string 0x3d with
  | none => (.error .eprotoInvalidKeyValuePair, iscsi)
  | some separator =>
    let keyLen := string.length - separator.length
    let value := separator.tail
    if value = ascii "Reject" then (.error .eprotoValueRejected, iscsi)
    else
      match iscsiStringTypes.find? fun type => string.take keyLen = type.1.take keyLen with
      | none => (.ok (), iscsi)
      | some type =>
        type.2 env (env.oracle iscsi.turn) { iscsi with turn := iscsi.turn + 1 } value

/-- The loop over the strings in a buffer, for at most so many turns. -/
def iscsiHandleStringsUpTo : ℕ → IscsiSession → Bytes → Except Errno Unit × IscsiSession
  | 0, iscsi, _ => (.ok (), iscsi)
  | turns + 1, iscsi, strings =>
    let string := strings.takeWhile (· ≠ 0)
    if string.length + 1 > strings.length then (.ok (), iscsi)
    else
      match iscsiHandleString env iscsi string with
      | (.error rc, iscsi) => (.error rc, iscsi)
      | (.ok (), iscsi) => iscsiHandleStringsUpTo turns iscsi (strings.drop (string.length + 1))

/-- Handle iSCSI strings.  Every turn takes at least one byte.
[1255-1273] -/
def iscsiHandleStrings (strings : Bytes) : Except Errno Unit × IscsiSession :=
  iscsiHandleStringsUpTo env strings.length iscsi strings

/-! ## Login responses -/

/-- A login response: the fields of its header that are looked at, and its data.
[include/ipxe/iscsi.h:207-240] -/
structure IscsiLoginResponse where
  flags : UInt8
  statusClass : UInt8
  statusDetail : UInt8
  data : Bytes
  deriving DecidableEq, Repr

/-- See 1282-1309 -/
def iscsiStatusToRc (statusClass statusDetail : UInt8) : Errno :=
  if statusClass = 0x02 then
    if statusDetail = 0x01 then .epermInitiatorAuthentication
    else if statusDetail = 0x02 then .epermInitiatorAuthorisation
    else if statusDetail = 0x03 ∨ statusDetail = 0x04 then .enodev
    else .enotsupInitiatorStatus
  else if statusClass = 0x03 then
    if statusDetail = 0x01 then .eioTargetUnavailable
    else if statusDetail = 0x02 then .eioTargetNoResources
    else .enotsupTargetStatus
  else .einval

/-- Login transitions.
[1363-1381] -/
def iscsiTransition (flags : UInt8) : Except Errno Unit × IscsiSession :=
  if flags &&& 0x80 = 0 then (.ok (), iscsi)
  else
    let status := { iscsi.status with phase := .none, strings := {} }
    if flags &&& 0x03 = 0x01 then
      (.ok (), { iscsi with
        status := { status with
          phase := .operationalNegotiation
          strings := { operational := true } } })
    else if flags &&& 0x03 = 0x03 then
      (.ok (), { iscsi with status := { status with phase := .fullFeature } })
    else (.error .eio, { iscsi with status })

/-- What follows a login response that reports success: the transition, and then either
the next login request or the full feature phase.
[1363-1405] -/
def iscsiAdvance (flags : UInt8) : Except Errno Unit × IscsiSession :=
  match iscsiTransition iscsi flags with
  | (.error rc, iscsi) => (.error rc, iscsi)
  | (.ok (), iscsi) =>
    if iscsi.status.phase ≠ .fullFeature then (.ok (), iscsiStartLogin env iscsi)
    else if iscsi.status.authReverseRequired ∧ ¬ iscsi.status.authReverseOk then
      (.error .eproto, iscsi)
    else (.ok (), iscsi)

/-- Receive data segment of an iSCSI login response PDU.
[1320-1405] -/
def iscsiRxLoginResponse (response : IscsiLoginResponse) : Except Errno Unit × IscsiSession :=
  let oracle := env.oracle iscsi.turn
  let iscsi := { iscsi with turn := iscsi.turn + 1 }
  if !oracle.malloc 0 then (.error .enomem, iscsi)
  else
    match iscsiHandleStrings env iscsi response.data with
    | (.error rc, iscsi) => (.error rc, iscsi)
    | (.ok (), iscsi) =>
      if response.statusClass = 0x01 then
        iscsiOpenConnection env (iscsiCloseConnection iscsi)
      else if response.statusClass ≠ 0x00 then
        (.error (iscsiStatusToRc response.statusClass response.statusDetail), iscsi)
      else iscsiAdvance env iscsi response.flags

/-- One turn of the transmission loop: whether the window is open, and what comes of it if
something is transmitted.
[1469-1595] -/
def iscsiTxStep (window : Bool) (rc : Except Errno Unit) : IscsiSession :=
  match iscsi.txState with
  | .idle => iscsi
  | .bhs =>
    if !window then iscsi
    else
      match rc with
      | .error rc => iscsiClose iscsi (.error rc)
      | .ok () => { iscsi with txState := .ahs }
  | .ahs => { iscsi with txState := .data }
  | .data =>
    if iscsi.txBhs.dataLen ≠ 0 ∧ !window then iscsi
    else
      match iscsi.txBhs.opcode with
      | .loginRequest =>
        match rc with
        | .error rc => iscsiClose iscsi (.error rc)
        | .ok () =>
          let strings := iscsiBuildLoginRequestStrings env iscsi
          let heap := (env.oracle iscsi.turn).heap
          let data := iscsiLoginData strings iscsi.txBhs.dataLen heap
          let iscsi := { iscsi with
            txState := .idle
            turn := iscsi.turn + 1
            trace := .sent data :: iscsi.trace }
          iscsiLoginRequestDone iscsi
      | _ => { iscsi with txState := .idle }

/-- Check iSCSI flow-control window.
[1838-1848] -/
def iscsiScsiWindow : ℕ :=
  if iscsi.status.phase = .fullFeature ∧ iscsi.command = false then 1 else 0

/-- Issue iSCSI SCSI command.
[1858-1886] -/
def iscsiScsiCommand : Except Errno Unit × IscsiSession :=
  let oracle := env.oracle iscsi.turn
  let iscsi := { iscsi with turn := iscsi.turn + 1 }
  if iscsiScsiWindow iscsi = 0 then (.error .eopnotsupp, iscsi)
  else if !oracle.malloc 0 then (.error .enomem, iscsi)
  else
    (.ok (), { iscsi with
      command := true
      txState := .bhs
      txBhs := { opcode := .scsiCommand, flags := 0x81 } })

/-- Check iSCSI authentication details.
[2143-2165] -/
def iscsiCheckAuth : Except Errno Unit :=
  if env.initiatorUsername.isSome ≠ env.initiatorPassword.isSome ∨
      env.targetUsername.isSome ≠ env.targetPassword.isSome ∨
      (env.targetUsername.isSome ∧ ¬ env.initiatorUsername.isSome) then
    .error .einvalBadCredentialMix
  else .ok ()

/-- Open iSCSI URI, from the check of the settings on.
[2174-2253] -/
def iscsiOpen : IscsiSession :=
  let iscsi : IscsiSession :=
    { targetAddress := some env.targetAddress.chars, targetPort := env.targetPort }
  match iscsiCheckAuth env with
  | .error rc => iscsiClose iscsi (.error rc)
  | .ok () => iscsiDone (iscsiOpenConnection env iscsi)

inductive IscsiEvent where
  | loginResponse (response : IscsiLoginResponse)
  /-- a turn of the transmission process -/
  | tx (window : Bool) (rc : Except Errno Unit)
  | scsiCommand
  /-- the current command is complete, see `iscsi_scsi_done` -/
  | scsiDone
  /-- either interface is closed -/
  | close (rc : Except Errno Unit)

/-- Nothing reaches a session that has been shut down. -/
def iscsiStep (event : IscsiEvent) : IscsiSession :=
  if iscsi.closed.isSome then iscsi
  else
    match event with
    | .loginResponse response => iscsiDone (iscsiRxLoginResponse env iscsi response)
    | .tx window rc => iscsiTxStep env iscsi window rc
    | .scsiCommand => (iscsiScsiCommand env iscsi).2
    | .scsiDone => { iscsi with command := false }
    | .close rc => iscsiClose iscsi rc

end

end Ipxe.Model
