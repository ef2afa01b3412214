import Ipxe.Library.Runs
import Ipxe.Model.Tcp

/-!
# The streams of a TCP connection

The peer has one byte stream: the SYN takes the initial sequence number, the byte at offset `n`
the number `isn + 1 + n` and the FIN the number behind the last byte, modulo `2 ^ 32`.  A segment
carries a slice of the stream at its true number; everything else in it is left open.
-/

namespace Ipxe.Interface

open Library Model

/-- A byte stream with its initial sequence number. -/
structure PeerStream where
  isn : BitVec 32
  bytes : Bytes
  short : bytes.length < 2 ^ 31

variable (stream : PeerStream)

/-- The sequence number of the byte at an offset of the stream. -/
def PeerStream.seqAt (offset : ℕ) : BitVec 32 :=
  serialAt stream.isn (offset + 1)

/-- `data` is a slice of the stream that starts at sequence number `seq`, and `fin`
marks at most the end of the stream. -/
def PeerStream.Slice (seq : BitVec 32) (data : Bytes) (fin : Bool) : Prop :=
  ∃ offset, seq = stream.seqAt offset ∧ offset + data.length ≤ stream.bytes.length ∧
    data = (stream.bytes.drop offset).take data.length ∧
    (fin = true → offset + data.length = stream.bytes.length)

/-- A segment that the peer may send.  One without content may have any sequence
number. -/
def PeerStream.Sends (segment : TcpSegment) : Prop :=
  (segment.flags.syn = true → segment.seq = stream.isn) ∧
  (segment.data ≠ [] ∨ segment.flags.fin = true →
    stream.Slice (if segment.flags.syn then segment.seq + 1 else segment.seq) segment.data
      segment.flags.fin)

/-! ## The transmit side

An action is one call into the code that concerns the transmit side.  Actions come in any order,
also while a received packet is processed, whose other effects are one more action (`receive`). -/

/-- What the receive path works on. -/
structure TcpRxSide where
  rcvd : TcpFlags
  /-- ACKs are sent with each packet -/
  sentAck : Bool
  tsEnabled : Bool
  ackPending : Bool
  sackEnabled : Bool
  rcvAck : BitVec 32
  rcvWin : BitVec 32
  tsVal : BitVec 32
  tsRecent : BitVec 32
  sndWinScale : ℕ
  rcvWinScale : ℕ
  sack : List TcpSackBlock
  rxQueue : List TcpRxQueued
  process : Bool
  keepalive : Bool
  wait : Bool
  delivered : Bytes

variable (tcp : TcpConnection)

def rxSide : TcpRxSide where
  rcvd := tcp.state.rcvd
  sentAck := tcp.state.sent.ack
  tsEnabled := tcp.tsEnabled
  ackPending := tcp.ackPending
  sackEnabled := tcp.sackEnabled
  rcvAck := tcp.rcvAck
  rcvWin := tcp.rcvWin
  tsVal := tcp.tsVal
  tsRecent := tcp.tsRecent
  sndWinScale := tcp.sndWinScale
  rcvWinScale := tcp.rcvWinScale
  sack := tcp.sack
  rxQueue := tcp.rxQueue
  process := tcp.process
  keepalive := tcp.keepalive
  wait := tcp.wait
  delivered := tcp.delivered

def withRxSide (side : TcpRxSide) : TcpConnection :=
  { tcp with
    state := { tcp.state with
      sent := { tcp.state.sent with ack := side.sentAck }
      rcvd := side.rcvd }
    tsEnabled := side.tsEnabled
    ackPending := side.ackPending
    sackEnabled := side.sackEnabled
    rcvAck := side.rcvAck
    rcvWin := side.rcvWin
    tsVal := side.tsVal
    tsRecent := side.tsRecent
    sndWinScale := side.sndWinScale
    rcvWinScale := side.rcvWinScale
    sack := side.sack
    rxQueue := side.rxQueue
    process := side.process
    keepalive := side.keepalive
    wait := side.wait
    delivered := side.delivered }

inductive TcpAction where
  /-- the application sends data -/
  | xferDeliver (data : Bytes) (env : TcpXmitEnv)
  /-- `tcp_close`, by the application or because of a FIN -/
  | close
  /-- the connection is given up -/
  | abort
  | xmitSack (sackSeq : BitVec 32) (env : TcpXmitEnv)
  /-- the retransmission timer expires, for the last time or not -/
  | expired (fail : Bool) (env : TcpXmitEnv)
  | rxAck (ack win : BitVec 32)
  | receive (side : TcpRxSide)

def tcpAct : TcpAction → TcpConnection
  | .xferDeliver data env =>
    -- a closed interface takes no data
    if tcp.xferClosed then tcp
    else
      tcpXmit
        { tcp with txQueue := tcp.txQueue ++ [data], pendingData := tcp.pendingData + 1 } env
  | .close => tcpClose tcp
  | .abort => tcpClose { tcp with state := .closed }
  | .xmitSack sackSeq env => tcpXmitSack tcp sackSeq env
  | .expired fail env => tcpExpired tcp fail env
  | .rxAck ack win =>
    match tcpRxAck tcp ack win with
    | .ok tcp => tcp
    | .error _ => tcp
  | .receive side => withRxSide tcp side

/-- How much of the sequence space is acknowledged, unless more than was sent. -/
def acceptedAck (ack : BitVec 32) : ℕ :=
  if (ack - tcp.sndSeq).toNat ≤ tcp.sndSent.toNat then (ack - tcp.sndSeq).toNat else 0

/-- The sequence numbers that an action acknowledges.  When a connection is closed whose SYN
has not been acknowledged, the code goes on as if it had been. -/
def TcpAction.accepted : TcpAction → ℕ
  | .rxAck ack _ => acceptedAck tcp ack
  | .close =>
    if tcp.state.rcvd.syn ∧ ¬ tcp.state.acked.syn then acceptedAck tcp (tcp.sndSeq + 1) else 0
  | _ => 0

/-- The bytes that an action takes from the application. -/
def TcpAction.taken : TcpAction → Bytes
  | .xferDeliver data _ => if tcp.xferClosed then [] else data
  | _ => []

structure TcpSender where
  tcp : TcpConnection
  /-- the bytes that the application has sent -/
  stream : Bytes := []
  /-- the sequence numbers acknowledged so far, counted from the SYN and not modulo `2 ^ 32` -/
  una : ℕ := 0

def senderStep (sender : TcpSender) (action : TcpAction) : TcpSender where
  tcp := tcpAct sender.tcp action
  stream := sender.stream ++ action.taken sender.tcp
  una := sender.una + action.accepted sender.tcp

/-- A segment that carries the stream at its sequence number, which is the first one that has
not been acknowledged; the byte at offset `n` of the stream has the number `iss + 1 + n`.
There is a FIN only if the queue is empty. -/
structure TcpSender.Sends (iss : BitVec 32) (sender : TcpSender) (segment : TcpTxSegment) :
    Prop where
  seq : segment.seq = iss + BitVec.ofNat 32 sender.una
  data : segment.data <+: sender.stream.drop (sender.una - 1)
  synced : segment.data ≠ [] → 1 ≤ sender.una
  fin : segment.flags.fin = true → sender.tcp.txQueue = []

end Ipxe.Interface
