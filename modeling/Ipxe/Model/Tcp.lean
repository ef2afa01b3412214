import Ipxe.Library.SerialNumber
import Ipxe.Model.Platform
import Ipxe.Model.Tcpip

/-!
# TCP connections

`net/tcp.c` for one connection.  The state word of the source is three bytes of TCP flags (sent,
acknowledged by the peer, received from the peer).  Whether an allocation succeeds, the receive
window, the clock, and how many times `tcp_discard` runs (inside any allocation) are arguments.
`delivered` and `transmitted` record what has been handed to the application and the network layer.

Left out: profiling, debugging output, the peer's address, and the TCP checksum of
transmitted segments.
-/

namespace Ipxe.Model

open Library List

/-! ## Flags and states -/

/-- The flags of a TCP header that the code looks at. -/
structure TcpFlags where
  fin : Bool := false
  syn : Bool := false
  rst : Bool := false
  psh : Bool := false
  ack : Bool := false
  deriving DecidableEq, Repr

def TcpFlags.ofByte (byte : UInt8) : TcpFlags where
  fin := byte.toBitVec.getLsbD 0
  syn := byte.toBitVec.getLsbD 1
  rst := byte.toBitVec.getLsbD 2
  psh := byte.toBitVec.getLsbD 3
  ack := byte.toBitVec.getLsbD 4

/-- `TCP_FLAGS_SENT`, `TCP_FLAGS_ACKED` and `TCP_FLAGS_RCVD` of the state word.
[include/ipxe/tcp.h:163-184] -/
structure TcpState where
  sent : TcpFlags := {}
  acked : TcpFlags := {}
  rcvd : TcpFlags := {}
  deriving DecidableEq, Repr

namespace TcpState

variable (state : TcpState)

def sending : TcpFlags where
  fin := state.sent.fin && !state.acked.fin
  syn := state.sent.syn && !state.acked.syn
  rst := state.sent.rst && !state.acked.rst
  psh := state.sent.psh && !state.acked.psh
  ack := state.sent.ack && !state.acked.ack

def closed : TcpState := { sent := { rst := true } }

def synSent : TcpState := { sent := { syn := true } }

def listen : TcpState := {}

def synRcvd : TcpState := { sent := { syn := true, ack := true }, rcvd := { syn := true } }

def established : TcpState := { synRcvd with acked := { syn := true } }

def finWait1 : TcpState :=
  { established with sent := { syn := true, ack := true, fin := true } }

def finWait2 : TcpState := { finWait1 with acked := { syn := true, fin := true } }

def closingOrLastAck : TcpState := { finWait1 with rcvd := { syn := true, fin := true } }

def timeWait : TcpState := { finWait2 with rcvd := { syn := true, fin := true } }

def closeWait : TcpState := { established with rcvd := { syn := true, fin := true } }

def canSendData : Bool := state.acked.syn && !state.sent.fin

def hasBeenEstablished : Bool := state.acked.syn && state.rcvd.syn

def closedGracefully : Bool := state.acked.fin && state.rcvd.fin

def sendFin : TcpState :=
  { state with sent := { state.sent with fin := true } }

end TcpState

/-- See include/ipxe/tcp.h:436-439 -/
def tcpCmp (seq1 seq2 : BitVec 32) : ℤ := serialCmp seq1 seq2

/-- See include/ipxe/tcp.h:449-452 -/
def tcpInWindow (seq start len : BitVec 32) : Bool := (seq - start).toNat < len.toNat

/-! ## Connections -/

structure TcpSackBlock where
  left : BitVec 32 := 0
  right : BitVec 32 := 0
  deriving DecidableEq, Repr

def tcpSackMax : ℕ := 3

/-- A received packet on the receive queue, behind its internal header.
[121-141] -/
structure TcpRxQueued where
  seq : BitVec 32
  nxt : BitVec 32
  fin : Bool
  data : Bytes
  deriving DecidableEq, Repr

inductive TcpTxOption where
  | mss (mss : ℕ)
  | windowScale (scale : ℕ)
  | sackPermitted
  | timestamp (tsval tsecr : BitVec 32)
  | sack (blocks : List TcpSackBlock)
  deriving DecidableEq, Repr

/-- The padded size of an option.
[include/ipxe/tcp.h:50-130] -/
def TcpTxOption.size : TcpTxOption → ℕ
  | mss _ => 4
  | windowScale _ => 4
  | sackPermitted => 4
  | timestamp _ _ => 12
  | sack blocks => 4 + 8 * blocks.length

/-- `MAX_LL_NET_HEADER_LEN`
[include/ipxe/netdevice.h:45-58] -/
def maxLlNetHeaderLen : ℕ := 64 + 40

/-- `TCP_MAX_HEADER_LEN`: with the TCP header and the MSS, window scale and timestamp options.
[include/ipxe/tcp.h:399-404] -/
def tcpMaxHeaderLen : ℕ := maxLlNetHeaderLen + 20 + 4 + 4 + 12

/-- A transmitted segment. -/
structure TcpTxSegment where
  seq : BitVec 32
  ack : BitVec 32
  flags : TcpFlags
  win : BitVec 16
  options : List TcpTxOption
  /-- the header length byte -/
  hlen : BitVec 8
  data : Bytes
  deriving DecidableEq, Repr

/-- See 34-111 -/
structure TcpConnection where
  /-- `TCP_XFER_CLOSED`, `TCP_TS_ENABLED`, `TCP_ACK_PENDING`, `TCP_SACK_ENABLED` -/
  xferClosed : Bool := false
  tsEnabled : Bool := false
  ackPending : Bool := false
  sackEnabled : Bool := false
  localPort : ℕ
  mss : ℕ
  state : TcpState
  sndSeq : BitVec 32
  sndSent : BitVec 32 := 0
  sndWin : BitVec 32 := 0
  rcvAck : BitVec 32 := 0
  rcvWin : BitVec 32 := 0
  tsVal : BitVec 32 := 0
  tsRecent : BitVec 32 := 0
  sndWinScale : ℕ := 0
  rcvWinScale : ℕ := 0
  sack : List TcpSackBlock := List.replicate tcpSackMax {}
  txQueue : List Bytes := []
  rxQueue : List TcpRxQueued := []
  /-- the transmission process and the three timers are running -/
  process : Bool := false
  timer : Bool := false
  keepalive : Bool := false
  wait : Bool := false
  pendingFlags : ℕ := 0
  pendingData : ℕ := 0
  /-- removed from the list of connections -/
  deleted : Bool := false
  delivered : Bytes := []
  transmitted : List TcpTxSegment := []
  deriving DecidableEq, Repr

/-- What a transmission learns from outside. -/
structure TcpXmitEnv where
  /-- calls of `tcp_discard` made while the I/O buffer is allocated -/
  discards : ℕ := 0
  /-- the I/O buffer can be allocated -/
  alloc : Bool := true
  /-- `xfer_window ( &tcp->xfer )` -/
  xferWindow : ℕ := 0
  /-- `currticks()` -/
  ticks : BitVec 32 := 0
  /-- `tcpip_tx` succeeds -/
  txOk : Bool := true
  deriving DecidableEq, Repr

/-- A new connection, from the random initial sequence number on.
[256-322] -/
def tcpOpen (localPort mtu : ℕ) (sndSeq : BitVec 32) : TcpConnection where
  localPort := localPort
  mss := mtu - 20
  state := .synSent
  sndSeq := sndSeq
  timer := true
  pendingFlags := 1

/-! ## Transmit data path -/

def tcpPathMtu : ℕ := 1280 - 40 - 20 - 12

variable (tcp : TcpConnection)

/-- See 432-445 -/
def tcpXmitWin : ℕ :=
  if tcp.state.canSendData then min tcp.sndWin.toNat tcpPathMtu else 0

/-- The search loop of `tcp_sack_block`: the block that the queue holds around `seq`.
[482-492] -/
def tcpSackBlockLoop (seq : BitVec 32) : List TcpRxQueued → TcpSackBlock → TcpSackBlock
  | [], block => block
  | queued :: queue, block =>
    if tcpCmp queued.seq block.right > 0 ∧ tcpCmp queued.seq seq > 0 then block
    else
      let left := if tcpCmp queued.seq block.right > 0 then queued.seq else block.left
      let right := if tcpCmp queued.nxt block.right > 0 then queued.nxt else block.right
      tcpSackBlockLoop seq queue ⟨left, right⟩

/-- See 474-503 -/
def tcpSackBlock (seq : BitVec 32) : Option TcpSackBlock :=
  let block := tcpSackBlockLoop seq tcp.rxQueue ⟨tcp.rcvAck, tcp.rcvAck⟩
  if tcpCmp block.right seq < 0 ∨ block.right = block.left then none else some block

/-- The remaining new blocks of `tcp_sack`, from the old ones.
[524-549] -/
def tcpSackLoop (tcp : TcpConnection) : List TcpSackBlock → List TcpSackBlock → List TcpSackBlock
  | [], sack => sack
  | old :: olds, sack =>
    if sack.length = tcpSackMax then sack
    else if old.left = old.right then tcpSackLoop tcp olds sack
    else
      match tcpSackBlock tcp old.left with
      | none => tcpSackLoop tcp olds sack
      | some block =>
        if sack.any fun other => other.left = block.left then tcpSackLoop tcp olds sack
        else tcpSackLoop tcp olds (sack ++ [block])

/-- Update TCP selective acknowledgement list: the new blocks.
[512-555] -/
def tcpSack (seq : BitVec 32) : List TcpSackBlock :=
  tcpSackLoop tcp tcp.sack (tcpSackBlock tcp seq).toList

/-- Process TCP transmit queue: the data processed, the queue without it, and the
number of buffers used up.
[568-595] -/
def tcpProcessTxQueue : List Bytes → ℕ → Bytes × List Bytes × ℕ
  | [], _ => ([], [], 0)
  | iobuf :: queue, maxLen =>
    let (data, queue', freed) := tcpProcessTxQueue queue (maxLen - min iobuf.length maxLen)
    if iobuf.drop maxLen = [] then (iobuf.take maxLen ++ data, queue', freed + 1)
    else (iobuf.take maxLen ++ data, iobuf.drop maxLen :: queue', freed)

/-- Discard some cached TCP data: the last packet of the receive queue.
[1559-1579] -/
def tcpDiscard : TcpConnection :=
  { tcp with rxQueue := tcp.rxQueue.dropLast }

def tcpDiscards : ℕ → TcpConnection → TcpConnection
  | 0, tcp => tcp
  | n + 1, tcp => tcpDiscards n (tcpDiscard tcp)

/-- Expand receive window if possible.
[676-687] -/
def tcpExpandWindow (xferWindow : ℕ) : TcpConnection :=
  let maxRcvWin := min (xferWindow % 2 ^ 32) (2048 * 1024)
  let maxRcvWin := min maxRcvWin (0xffff * 2 ^ tcp.rcvWinScale % 2 ^ 32)
  let maxRcvWin := maxRcvWin / 4 * 4
  if tcp.rcvWin.toNat < maxRcvWin then { tcp with rcvWin := BitVec.ofNat 32 maxRcvWin } else tcp

/-- The options of a segment, in the order in which they are pushed in front of the
payload, and the connection with its selective acknowledgement list updated.
[690-731] -/
def tcpTxOptions (syn : Bool) (sackSeq ticks : BitVec 32) : TcpConnection × List TcpTxOption :=
  let synOptions := if syn then [.mss tcp.mss, .windowScale 9, .sackPermitted] else []
  let tsOptions := if syn || tcp.tsEnabled then [.timestamp ticks tcp.tsRecent] else []
  if tcp.sackEnabled ∧ tcp.rxQueue ≠ [] then
    let blocks := tcpSack tcp sackSeq
    let sack := blocks ++ List.replicate (tcpSackMax - blocks.length) ⟨0, 0⟩
    ({ tcp with sack := sack },
      synOptions ++ tsOptions ++ if blocks = [] then [] else [.sack blocks])
  else (tcp, synOptions ++ tsOptions)

/-- The payload that a transmission would carry.
[636-642] -/
def tcpTxData : Bytes :=
  if tcp.state.canSendData then (tcpProcessTxQueue tcp.txQueue (tcpXmitWin tcp)).1 else []

/-- The sequence space that a transmission would take.
[643-649] -/
def tcpTxSeqLen : ℕ :=
  (tcpTxData tcp).length + (tcp.state.sending.syn || tcp.state.sending.fin).toNat

variable (data : Bytes)

/-- Build a segment in the allocated buffer and transmit it.
[673-761] -/
def tcpTransmit (sackSeq : BitVec 32) (env : TcpXmitEnv) : TcpConnection :=
  let flags := tcp.state.sending
  let tcp := tcpExpandWindow tcp env.xferWindow
  let (tcp, options) := tcpTxOptions tcp flags.syn sackSeq env.ticks
  let hdrLen := 20 + (options.map TcpTxOption.size).sum
  let segment : TcpTxSegment :=
    { seq := tcp.sndSeq
      ack := tcp.rcvAck
      flags := { flags with psh := flags.psh || decide (data ≠ []) }
      win := (tcp.rcvWin >>> tcp.rcvWinScale).setWidth 16
      options := options
      hlen := BitVec.ofNat 8 (hdrLen * 4)
      data := data }
  if env.txOk then
    { tcp with ackPending := false, transmitted := tcp.transmitted ++ [segment] }
  else tcp

/-- Transmit any outstanding data (with selective acknowledgement).
[609-762] -/
def tcpXmitSack (sackSeq : BitVec 32) (env : TcpXmitEnv) : TcpConnection :=
  let seqLen := tcpTxSeqLen tcp
  if tcp.timer then tcp
  else if seqLen = 0 ∧ ¬ tcp.ackPending then { tcp with sndSent := BitVec.ofNat 32 seqLen }
  else
    let data := tcpTxData tcp
    let tcp :=
      tcpDiscards env.discards
        { tcp with sndSent := BitVec.ofNat 32 seqLen, timer := decide (seqLen ≠ 0) }
    if env.alloc then tcpTransmit tcp data sackSeq env else tcp

/-- See 769-773 -/
def tcpXmit (env : TcpXmitEnv) : TcpConnection :=
  tcpXmitSack tcp tcp.rcvAck env

/-! ## Acknowledgements and closing -/

/-- Handle TCP received ACK.
[1115-1188] -/
def tcpRxAck (ack win : BitVec 32) : Except Errno TcpConnection :=
  let ackLen := (ack - tcp.sndSeq).toNat
  if ackLen > tcp.sndSent.toNat then
    if tcp.state.hasBeenEstablished then .ok tcp else .error .einval
  else
    let tcp := { tcp with sndWin := win, keepalive := tcp.keepalive || !tcp.state.sent.fin }
    if ackLen = 0 then .ok tcp
    else
      let ackedSyn := tcp.state.sending.syn
      let ackedFin := tcp.state.sending.fin
      let acked := ackedSyn || ackedFin
      let (_, queue, freed) := tcpProcessTxQueue tcp.txQueue (if acked then ackLen - 1 else ackLen)
      let state :=
        { tcp.state with
          acked :=
            { tcp.state.acked with
              syn := tcp.state.acked.syn || ackedSyn
              fin := tcp.state.acked.fin || ackedFin } }
      let tcp :=
        { tcp with
          timer := false
          pendingFlags := if acked then tcp.pendingFlags - 1 else tcp.pendingFlags
          sndSeq := ack
          sndSent := 0
          txQueue := queue
          pendingData := tcp.pendingData - freed
          state := state }
      -- start sending FIN once all data has been acknowledged
      if tcp.txQueue = [] ∧ tcp.xferClosed ∧ ¬ tcp.state.sent.fin then
        .ok { tcp with state := tcp.state.sendFin, pendingFlags := tcp.pendingFlags + 1 }
      else .ok tcp

/-- The part of `tcp_close` that deletes the connection.
[346-383] -/
def tcpDelete : TcpConnection :=
  { tcp with
    state := .closed
    rxQueue := []
    txQueue := []
    pendingData := tcp.pendingData - tcp.txQueue.length
    pendingFlags := tcp.pendingFlags - 2
    process := false
    timer := false
    keepalive := false
    wait := false
    deleted := true }

/-- The part of `tcp_close` that starts sending FIN.
[385-411] -/
def tcpCloseSend : TcpConnection :=
  let tcp :=
    if tcp.state.acked.syn then tcp
    else
      match tcpRxAck tcp (tcp.sndSeq + 1) 0 with
      | .ok tcp => tcp
      | .error _ => tcp
  let tcp := { tcp with keepalive := false }
  if tcp.txQueue = [] ∧ ¬ tcp.state.sent.fin then
    { tcp with
      state := tcp.state.sendFin, process := true, pendingFlags := tcp.pendingFlags + 1 }
  else tcp

/-- Close TCP connection.
[332-411] -/
def tcpClose : TcpConnection :=
  let tcp := { tcp with xferClosed := true }
  if tcp.state.rcvd.syn then tcpCloseSend tcp else tcpDelete tcp

/-! ## Receive data path -/

/-- Parsed TCP options: window scale, SACK permitted, timestamp value.
[include/ipxe/tcp.h:133-140] -/
structure TcpOptions where
  wsopt : Option ℕ := none
  spopt : Bool := false
  tsopt : Option (BitVec 32) := none
  deriving DecidableEq, Repr

def beWord : BitVec 32 :=
  BitVec.ofNat 32 (data.foldl (fun acc byte => acc * 256 + byte.toNat) 0)

/-- Parse TCP received options.
[954-1019] -/
def tcpRxOpts (data : Bytes) (options : TcpOptions) : Except Errno TcpOptions :=
  match data with
  | [] => .ok options
  | kind :: rest =>
    if kind = 0 then .ok options
    else if kind = 1 then tcpRxOpts rest options
    else
      let min := if kind = 3 then 3 else if kind = 8 then 10 else 2
      let length := (rest.headD 0).toNat
      if data.length < min then .error .einval
      else if length < min then .error .einval
      else if _h : length > data.length then .error .einval
      else
        let options :=
          if kind = 3 then { options with wsopt := some ((data.getD 2 0).toNat) }
          else if kind = 4 then { options with spopt := true }
          else if kind = 8 then { options with tsopt := some (beWord ((data.drop 2).take 4)) }
          else options
        tcpRxOpts (rest.drop (length - 1)) options
termination_by data.length

/-- A received segment, parsed. -/
structure TcpSegment where
  dest : ℕ := 0
  seq : BitVec 32
  ack : BitVec 32 := 0
  rawWin : ℕ := 0
  flags : TcpFlags := {}
  options : TcpOptions := {}
  data : Bytes := []
  deriving DecidableEq, Repr

/-- Sanity check packet and parse parameters from header.
[1421-1470] -/
def tcpParse (pshdrCsum : UInt16) (packet : Bytes) : Except Errno TcpSegment :=
  let hlen := (packet.getD 12 0).toNat / 16 * 4
  if packet.length < 20 then .error .einval
  else if hlen < 20 then .error .einval
  else if hlen > packet.length then .error .einval
  else if tcpipContinueChksum pshdrCsum packet ≠ 0 then .error .einval
  else
    match tcpRxOpts ((packet.take hlen).drop 20) {} with
    | .error rc => .error rc
    | .ok options =>
      .ok
        { dest := (beWord ((packet.drop 2).take 2)).toNat
          seq := beWord ((packet.drop 4).take 4)
          ack := beWord ((packet.drop 8).take 4)
          rawWin := (beWord ((packet.drop 14).take 2)).toNat
          flags := TcpFlags.ofByte (packet.getD 13 0)
          options := options
          data := packet.drop hlen }

theorem tcpParse_fields {pshdrCsum : UInt16} {packet : Bytes} {segment : TcpSegment}
    (h : tcpParse pshdrCsum packet = .ok segment) :
    segment.seq = beWord ((packet.drop 4).take 4) ∧
    segment.flags = TcpFlags.ofByte (packet.getD 13 0) ∧
    segment.data = packet.drop ((packet.getD 12 0).toNat / 16 * 4) := by
  simp only [tcpParse] at h
  split_ifs at h
  split at h
  · cases h
  · cases h
    exact ⟨rfl, rfl, rfl⟩

/-- Move one edge of a selective acknowledgement block up to `rcv_ack`. -/
def tcpSackClip (rcvAck edge : BitVec 32) : BitVec 32 :=
  if tcpCmp edge rcvAck < 0 then rcvAck else edge

/-- Consume received sequence space.
[1027-1061] -/
def tcpRxSeq (seqLen : BitVec 32) : TcpConnection :=
  let rcvAck := tcp.rcvAck + seqLen
  { tcp with
    rcvAck := rcvAck
    rcvWin := if tcp.rcvWin.toNat > seqLen.toNat then tcp.rcvWin - seqLen else 0
    tsRecent := tcp.tsVal
    sack := tcp.sack.map fun block =>
      if block.left = block.right then block
      else ⟨tcpSackClip rcvAck block.left, tcpSackClip rcvAck block.right⟩
    ackPending := true }

/-- Synchronise sequence numbers on first SYN.
[1074-1091] -/
def tcpSynchronise (seq : BitVec 32) (options : TcpOptions) : TcpConnection :=
  { tcp with
    rcvAck := seq
    tsEnabled := tcp.tsEnabled || options.tsopt.isSome
    sackEnabled := tcp.sackEnabled || options.spopt
    sndWinScale := options.wsopt.getD tcp.sndWinScale
    rcvWinScale := if options.wsopt.isSome then 9 else tcp.rcvWinScale }

/-- Handle TCP received SYN.
[1070-1105] -/
def tcpRxSyn (seq : BitVec 32) (options : TcpOptions) : TcpConnection :=
  let tcp := if tcp.state.rcvd.syn then tcp else tcpSynchronise tcp seq options
  if seq ≠ tcp.rcvAck then tcp
  else
    let tcp := tcpRxSeq tcp 1
    { tcp with
      state :=
        { tcp.state with
          sent := { tcp.state.sent with ack := true }
          rcvd := { tcp.state.rcvd with syn := true } } }

/-- Deliver data to application, which may cause `discards` calls of `tcp_discard`.
Once the interface is closed the data goes nowhere.
[1219-1227] -/
def tcpDeliver (discards : ℕ) : TcpConnection :=
  tcpDiscards discards
    { tcp with delivered := if tcp.xferClosed then tcp.delivered else tcp.delivered ++ data }

/-- Handle TCP received data.
[1200-1230] -/
def tcpRxData (seq : BitVec 32) (data : Bytes) (discards : ℕ) : TcpConnection :=
  let alreadyRcvd := (tcp.rcvAck - seq).toNat
  if alreadyRcvd ≥ data.length then tcp
  else
    let data := data.drop alreadyRcvd
    tcpDeliver (tcpRxSeq tcp (BitVec.ofNat 32 data.length)) data discards

/-- Handle TCP received FIN.
[1239-1256] -/
def tcpRxFin (seq : BitVec 32) : TcpConnection :=
  if seq ≠ tcp.rcvAck then tcp
  else
    let tcp := tcpRxSeq tcp 1
    tcpClose
      { tcp with
        state := { tcp.state with rcvd := { tcp.state.rcvd with fin := true } } }

/-- Handle TCP received RST: the aborted connection, or nothing if the RST is ignored.
[1265-1288] -/
def tcpRxRst (seq : BitVec 32) : Option TcpConnection :=
  let ignored :=
    if tcp.state.rcvd.syn then !tcpInWindow seq tcp.rcvAck tcp.rcvWin
    else !tcp.state.acked.syn
  if ignored then none else some (tcpClose { tcp with state := .closed })

/-- Insert a packet in front of the first one with a larger sequence number.
[1334-1340] -/
def tcpRxInsert (packet : TcpRxQueued) : List TcpRxQueued → List TcpRxQueued
  | [] => [packet]
  | queued :: queue =>
    if tcpCmp packet.seq queued.seq < 0 then packet :: queued :: queue
    else queued :: tcpRxInsert packet queue

/-- Enqueue received TCP packet.
[1298-1341] -/
def tcpRxEnqueue (seq : BitVec 32) (fin : Bool) (data : Bytes) : TcpConnection :=
  let seqLen := BitVec.ofNat 32 (data.length + fin.toNat)
  let nxt := seq + seqLen
  if ¬ tcp.state.rcvd.syn ∨ tcpCmp seq (tcp.rcvAck + tcp.rcvWin) ≥ 0 ∨
      tcpCmp nxt tcp.rcvAck < 0 ∨ seqLen = 0 then tcp
  else { tcp with rxQueue := tcpRxInsert ⟨seq, nxt, fin, data⟩ tcp.rxQueue }

/-- One packet taken off the receive queue.
[1365-1381] -/
def tcpProcessQueued (queued : TcpRxQueued) (discards : ℕ) : TcpConnection :=
  let tcp := tcpRxData tcp queued.seq queued.data discards
  if queued.fin then tcpRxFin tcp (queued.seq + BitVec.ofNat 32 queued.data.length) else tcp

/-! Nothing that handles a packet puts packets on the receive queue. -/

theorem rxQueue_tcpDiscards (n : ℕ) (tcp : TcpConnection) :
    (tcpDiscards n tcp).rxQueue <+: tcp.rxQueue := by
  induction n generalizing tcp with
  | zero => exact prefix_refl _
  | succ n ih => exact (ih (tcpDiscard tcp)).trans ( dropLast_prefix _)

theorem rxQueue_tcpRxData (seq : BitVec 32) (data : Bytes)
    (discards : ℕ) : (tcpRxData tcp seq data discards).rxQueue <+: tcp.rxQueue := by
  unfold tcpRxData tcpDeliver
  simp only
  split
  · exact prefix_refl _
  · exact rxQueue_tcpDiscards _ _

theorem rxQueue_tcpRxAck {tcp tcp' : TcpConnection} {ack win : BitVec 32}
    (h : tcpRxAck tcp ack win = .ok tcp') : tcp'.rxQueue = tcp.rxQueue := by
  unfold tcpRxAck at h
  simp only at h
  split_ifs at h <;> cases h <;> rfl

theorem rxQueue_tcpCloseSend : (tcpCloseSend tcp).rxQueue = tcp.rxQueue := by
  unfold tcpCloseSend
  simp only
  cases hack : tcpRxAck tcp (tcp.sndSeq + 1) 0 with
  | error rc => split_ifs <;> rfl
  | ok tcp' =>
    have hq := rxQueue_tcpRxAck hack
    split_ifs <;> first | rfl | exact hq

theorem rxQueue_tcpClose : (tcpClose tcp).rxQueue <+: tcp.rxQueue := by
  unfold tcpClose
  simp only
  split
  · rw [rxQueue_tcpCloseSend]
  · exact nil_prefix

theorem rxQueue_tcpRxFin (seq : BitVec 32) : (tcpRxFin tcp seq).rxQueue <+: tcp.rxQueue := by
  unfold tcpRxFin
  split
  · exact prefix_refl _
  · exact rxQueue_tcpClose _

theorem rxQueue_tcpProcessQueued (queued : TcpRxQueued) (discards : ℕ) :
    (tcpProcessQueued tcp queued discards).rxQueue <+: tcp.rxQueue := by
  unfold tcpProcessQueued
  split
  · exact (rxQueue_tcpRxFin _ _).trans (rxQueue_tcpRxData _ _ _ _)
  · exact rxQueue_tcpRxData _ _ _ _

/-- Process receive queue.  `discards` says how often `tcp_discard` runs while each
packet is handled.
[1348-1384] -/
def tcpProcessRxQueue (tcp : TcpConnection) (discards : List ℕ) : TcpConnection :=
  match _h : tcp.rxQueue with
  | [] => tcp
  | queued :: queue =>
    -- stop processing at the first gap
    if tcpCmp queued.seq tcp.rcvAck > 0 then tcp
    else
      tcpProcessRxQueue
        (tcpProcessQueued { tcp with rxQueue := queue } queued (discards.headD 0)) discards.tail
termination_by tcp.rxQueue.length
decreasing_by
  have hle := (rxQueue_tcpProcessQueued { tcp with rxQueue := queue } queued
    (discards.headD 0)).length_le
  simp only at hle
  rw [_h, length_cons]
  omega

/-- What the reception of a segment learns from outside. -/
structure TcpRxEnv where
  /-- calls of `tcp_discard`, for each packet taken off the receive queue -/
  discards : List ℕ := []
  xmit : TcpXmitEnv := {}
  deriving DecidableEq, Repr

/-- Process received packet, once the connection has dealt with its acknowledgement,
SYN and RST.
[1516-1546] -/
def tcpRxContent (seq : BitVec 32) (segment : TcpSegment) (env : TcpRxEnv) : TcpConnection :=
  let tcp := tcpRxEnqueue tcp seq segment.flags.fin segment.data
  let tcp := tcpProcessRxQueue tcp env.discards
  let tcp := if tcp.rxQueue = [] then { tcp with process := true } else tcpXmitSack tcp seq env.xmit
  if tcp.state.closedGracefully then { tcp with wait := true } else tcp

/-- Process received packet, once it has been parsed and found to belong to the
connection.
[1462-1554] -/
def tcpRxSegment (segment : TcpSegment) (env : TcpRxEnv) : TcpConnection × Except Errno Unit :=
  let tcp := { tcp with tsVal := segment.options.tsopt.getD tcp.tsVal }
  let win := BitVec.ofNat 32 segment.rawWin <<< (tcp.sndWinScale % 32)
  match (if segment.flags.ack then tcpRxAck tcp segment.ack win else .ok tcp) with
  | .error rc => (tcp, .error rc)
  | .ok tcp =>
    -- force an ACK if this packet is out of order
    let tcp :=
      if tcp.state.rcvd.syn ∧ segment.seq ≠ tcp.rcvAck then { tcp with ackPending := true }
      else tcp
    let tcp := if segment.flags.syn then tcpRxSyn tcp segment.seq segment.options else tcp
    let seq := if segment.flags.syn then segment.seq + 1 else segment.seq
    match (if segment.flags.rst then tcpRxRst tcp seq else none) with
    | some tcp => (tcp, .error .econnreset)
    | none => (tcpRxContent tcp seq segment env, .ok ())

/-- Process received packet.
[1395-1560] -/
def tcpRx (pshdrCsum : UInt16) (packet : Bytes) (env : TcpRxEnv) :
    TcpConnection × Except Errno Unit :=
  match tcpParse pshdrCsum packet with
  | .error rc => (tcp, .error rc)
  | .ok segment =>
    if tcp.deleted ∨ segment.dest ≠ tcp.localPort then (tcp, .error .enotconn)
    else tcpRxSegment tcp segment env

inductive TcpEvent where
  /-- a packet arrives -/
  | rx (pshdrCsum : UInt16) (packet : Bytes) (env : TcpRxEnv)
  /-- cached data is discarded -/
  | discard
  /-- the transmission process runs -/
  | process (env : TcpXmitEnv)
  /-- the retransmission timer expires, for the last time or not -/
  | expired (fail : Bool) (env : TcpXmitEnv)
  | keepaliveExpired (env : TcpXmitEnv)
  | waitExpired
  /-- the application sends data -/
  | xferDeliver (data : Bytes) (env : TcpXmitEnv)
  /-- the application closes its interface -/
  | xferClose (env : TcpXmitEnv)
  deriving DecidableEq, Repr

/-- Retransmission timer expired.
[785-813] -/
def tcpExpired (fail : Bool) (env : TcpXmitEnv) : TcpConnection :=
  let tcp := { tcp with timer := false }
  if fail then tcpClose { tcp with state := .closed } else tcpXmit tcp env

/-- One event in the life of a connection.  A deleted connection hears of none.
[776-860,1395-1554,1559-1579,1677-1717] -/
def tcpStep (event : TcpEvent) : TcpConnection :=
  if tcp.deleted then tcp
  else
    match event with
    | .rx pshdrCsum packet env => (tcpRx tcp pshdrCsum packet env).1
    | .discard => tcpDiscard tcp
    | .process env => if tcp.process then tcpXmit { tcp with process := false } env else tcp
    | .expired fail env => if tcp.timer then tcpExpired tcp fail env else tcp
    | .keepaliveExpired env =>
      if tcp.keepalive then tcpXmit { tcp with ackPending := true } env else tcp
    | .waitExpired =>
      if tcp.wait then tcpClose { tcp with wait := false, state := .closed } else tcp
    | .xferDeliver data env =>
      if tcp.xferClosed then tcp
      else
        tcpXmit
          { tcp with txQueue := tcp.txQueue ++ [data], pendingData := tcp.pendingData + 1 } env
    | .xferClose env => if tcp.xferClosed then tcp else tcpXmit (tcpClose tcp) env

end Ipxe.Model
