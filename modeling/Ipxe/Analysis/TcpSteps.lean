import Ipxe.Model.Tcp

/-!
# What an event does to a TCP connection

Every event is one of a few operations on the connection (`TcpStepOf`), up to fields that only say
what is to be done next (`Prepares`).
-/

namespace Ipxe.Analysis

open Model List

variable (tcp : TcpConnection)

/-- Only fields are changed that say what is to be done, or hold what the application sends. -/
def Prepares (tcp tcp' : TcpConnection) : Prop :=
  ∃ ackPending process wait tsVal txQueue pendingData,
    tcp' = { tcp with
      ackPending := ackPending, process := process, wait := wait, tsVal := tsVal
      txQueue := txQueue, pendingData := pendingData }

theorem Prepares.refl : Prepares tcp tcp := ⟨_, _, _, _, _, _, rfl⟩

/-- A received segment is heard up to its SYN.
[net/tcp.c:1462-1507] -/
inductive Hears (tcp : TcpConnection) (segment : TcpSegment) : TcpConnection → Prop
  | unacked {tcp₁ : TcpConnection} (h : Prepares tcp tcp₁) : Hears tcp segment tcp₁
  | acked {tcp₀ tcp₁ tcp₂ : TcpConnection} {win : BitVec 32} (hbefore : Prepares tcp tcp₀)
      (hflag : segment.flags.ack = true) (hack : tcpRxAck tcp₀ segment.ack win = .ok tcp₁)
      (hafter : Prepares tcp₁ tcp₂) : Hears tcp segment tcp₂

def tcpHeardSyn (tcp : TcpConnection) (segment : TcpSegment) : TcpConnection :=
  if segment.flags.syn then tcpRxSyn tcp segment.seq segment.options else tcp

/-- The sequence number behind the SYN. -/
def contentSeq (segment : TcpSegment) : BitVec 32 :=
  if segment.flags.syn then segment.seq + 1 else segment.seq

/-- The operations that an event can amount to. -/
inductive TcpStepOf (tcp : TcpConnection) : TcpEvent → TcpConnection → Prop
  | prepare {event : TcpEvent} {tcp' : TcpConnection} (h : Prepares tcp tcp') :
      TcpStepOf tcp event tcp'
  | discard {event : TcpEvent} : TcpStepOf tcp event (tcpDiscards 1 tcp)
  | xmit {event : TcpEvent} {tcp' : TcpConnection} (h : Prepares tcp tcp') (env : TcpXmitEnv) :
      TcpStepOf tcp event (tcpXmit tcp' env)
  | expired {event : TcpEvent} (env : TcpXmitEnv) :
      TcpStepOf tcp event (tcpXmit { tcp with timer := false } env)
  | abort {event : TcpEvent} : TcpStepOf tcp event (tcpClose { tcp with state := .closed })
  | close (env : TcpXmitEnv) : TcpStepOf tcp (.xferClose env) (tcpXmit (tcpClose tcp) env)
  | reset {pshdrCsum : UInt16} {packet : Bytes} {env : TcpRxEnv} {segment : TcpSegment}
      {tcp₁ : TcpConnection} (hparse : tcpParse pshdrCsum packet = .ok segment)
      (hport : segment.dest = tcp.localPort) (hheard : Hears tcp segment tcp₁) :
      TcpStepOf tcp (.rx pshdrCsum packet env)
        (tcpClose { tcpHeardSyn tcp₁ segment with state := .closed })
  | receive {pshdrCsum : UInt16} {packet : Bytes} {env : TcpRxEnv} {segment : TcpSegment}
      {tcp₁ : TcpConnection} (hparse : tcpParse pshdrCsum packet = .ok segment)
      (hport : segment.dest = tcp.localPort) (hheard : Hears tcp segment tcp₁)
      (hrst : segment.flags.rst = true →
        tcpRxRst (tcpHeardSyn tcp₁ segment) (contentSeq segment) = none) :
      TcpStepOf tcp (.rx pshdrCsum packet env)
        (tcpRxContent (tcpHeardSyn tcp₁ segment) (contentSeq segment) segment env)

theorem tcpDiscards_eq (n : ℕ) (tcp : TcpConnection) :
    ∃ rxQueue, tcpDiscards n tcp = { tcp with rxQueue := rxQueue } ∧ rxQueue <+: tcp.rxQueue := by
  induction n generalizing tcp with
  | zero => exact ⟨tcp.rxQueue, rfl, prefix_refl _⟩
  | succ n ih =>
    obtain ⟨rxQueue, h, hqueue⟩ := ih (tcpDiscard tcp)
    exact ⟨rxQueue, h, hqueue.trans ( dropLast_prefix _)⟩

theorem tcpExpandWindow_eq (xferWindow : ℕ) :
    ∃ rcvWin, tcpExpandWindow tcp xferWindow = { tcp with rcvWin := rcvWin } ∧
      (tcp.rcvWin.toNat ≤ 2048 * 1024 → rcvWin.toNat ≤ 2048 * 1024) := by
  unfold tcpExpandWindow
  simp only
  split
  · refine ⟨_, rfl, fun _ => ?_⟩
    refine ((Nat.mod_le _ _).trans (Nat.div_mul_le_self _ 4)).trans ?_
    exact (min_le_left _ _).trans (min_le_right _ _)
  · exact ⟨tcp.rcvWin, rfl, id⟩

theorem tcpTxOptions_eq (syn : Bool) (sackSeq ticks : BitVec 32) :
    ∃ sack, (tcpTxOptions tcp syn sackSeq ticks).1 = { tcp with sack := sack } := by
  unfold tcpTxOptions
  simp only
  split
  · exact ⟨_, rfl⟩
  · exact ⟨tcp.sack, rfl⟩

/-- The connection after the segment was built, and the segment if it was transmitted. -/
theorem tcpTransmit_eq (data : Bytes) (sackSeq : BitVec 32) (env : TcpXmitEnv) :
    ∃ rcvWin sack ackPending fresh, tcpTransmit tcp data sackSeq env =
        { tcp with rcvWin := rcvWin, sack := sack, ackPending := ackPending
                   transmitted := tcp.transmitted ++ fresh } ∧
      (tcp.rcvWin.toNat ≤ 2048 * 1024 → rcvWin.toNat ≤ 2048 * 1024) ∧
      ∀ segment ∈ fresh, segment.seq = tcp.sndSeq ∧ segment.data = data ∧
        segment.flags.fin = tcp.state.sending.fin := by
  obtain ⟨rcvWin, hwindow, hle⟩ := tcpExpandWindow_eq tcp env.xferWindow
  obtain ⟨sack, hoptions⟩ :=
    tcpTxOptions_eq { tcp with rcvWin := rcvWin } tcp.state.sending.syn sackSeq env.ticks
  unfold tcpTransmit
  simp only [hwindow, hoptions]
  split
  · refine ⟨rcvWin, sack, false, [_], rfl, hle, fun segment hsegment => ?_⟩
    rw [mem_singleton.1 hsegment]
    exact ⟨rfl, rfl, rfl⟩
  · exact ⟨rcvWin, sack, tcp.ackPending, [], by rw [append_nil], hle, nofun⟩

/-- **A transmission** changes nothing else. -/
theorem tcpXmitSack_eq (sackSeq : BitVec 32) (env : TcpXmitEnv) :
    ∃ sndSent timer rxQueue rcvWin sack ackPending fresh, tcpXmitSack tcp sackSeq env =
        { tcp with sndSent := sndSent, timer := timer, rxQueue := rxQueue, rcvWin := rcvWin
                   sack := sack, ackPending := ackPending
                   transmitted := tcp.transmitted ++ fresh } ∧
      rxQueue <+: tcp.rxQueue ∧
      (tcp.rcvWin.toNat ≤ 2048 * 1024 → rcvWin.toNat ≤ 2048 * 1024) ∧
      (sndSent = tcp.sndSent ∨ sndSent = BitVec.ofNat 32 (tcpTxSeqLen tcp)) ∧
      ∀ segment ∈ fresh, segment.seq = tcp.sndSeq ∧ segment.data = tcpTxData tcp ∧
        segment.flags.fin = tcp.state.sending.fin := by
  have hsilent (sndSent : BitVec 32) (timer : Bool) (rxQueue : List TcpRxQueued) :
      { tcp with sndSent := sndSent, timer := timer, rxQueue := rxQueue } =
        { tcp with sndSent := sndSent, timer := timer, rxQueue := rxQueue
                   transmitted := tcp.transmitted ++ [] } := by
    rw [append_nil]
  unfold tcpXmitSack
  simp only
  split
  · exact ⟨_, _, _, _, _, _, [], hsilent _ _ _, prefix_refl _, id, .inl rfl, nofun⟩
  split
  · exact ⟨_, _, _, _, _, _, [], hsilent _ _ _, prefix_refl _, id, .inr rfl, nofun⟩
  obtain ⟨rxQueue, hdiscards, hqueue⟩ := tcpDiscards_eq env.discards
    { tcp with sndSent := BitVec.ofNat 32 (tcpTxSeqLen tcp), timer := decide (tcpTxSeqLen tcp ≠ 0) }
  rw [hdiscards]
  split
  · obtain ⟨rcvWin, sack, ackPending, fresh, htransmit, hle, hfresh⟩ := tcpTransmit_eq
      { tcp with
        sndSent := BitVec.ofNat 32 (tcpTxSeqLen tcp)
        timer := decide (tcpTxSeqLen tcp ≠ 0)
        rxQueue := rxQueue } (tcpTxData tcp) sackSeq env
    exact ⟨_, _, _, _, _, _, fresh, htransmit, hqueue, hle, .inr rfl, hfresh⟩
  · exact ⟨_, _, _, _, _, _, [], hsilent _ _ _, hqueue, id, .inr rfl, nofun⟩

theorem tcpRxRst_eq_abort {tcp tcp' : TcpConnection} {seq : BitVec 32}
    (h : tcpRxRst tcp seq = some tcp') : tcp' = tcpClose { tcp with state := .closed } := by
  unfold tcpRxRst at h
  simp only at h
  split_ifs at h <;> cases h <;> rfl

/-- The reception of a segment, by its outcome. -/
theorem tcpStepOf_tcpRxSegment {tcp : TcpConnection} {segment : TcpSegment} {pshdrCsum : UInt16}
    {packet : Bytes} (hparse : tcpParse pshdrCsum packet = .ok segment)
    (hport : segment.dest = tcp.localPort) (env : TcpRxEnv) :
    TcpStepOf tcp (.rx pshdrCsum packet env) (tcpRxSegment tcp segment env).1 := by
  unfold tcpRxSegment
  simp only
  split
  · exact .prepare ⟨_, _, _, _, _, _, rfl⟩
  rename_i tcp₁ hack
  have hheard : Hears tcp segment
      (if tcp₁.state.rcvd.syn = true ∧ segment.seq ≠ tcp₁.rcvAck then
        { tcp₁ with ackPending := true } else tcp₁) := by
    have hforce : Prepares tcp₁ (if tcp₁.state.rcvd.syn = true ∧ segment.seq ≠ tcp₁.rcvAck then
        { tcp₁ with ackPending := true } else tcp₁) := by
      split <;> exact ⟨_, _, _, _, _, _, rfl⟩
    split at hack
    · next hflag => exact .acked ⟨_, _, _, _, _, _, rfl⟩ hflag hack hforce
    · cases hack
      refine .unacked ?_
      split <;> exact ⟨_, _, _, _, _, _, rfl⟩
  split
  · next tcp₃ hrst =>
      split at hrst
      · rw [tcpRxRst_eq_abort hrst]
        exact .reset hparse hport hheard
      · cases hrst
  · next hrst =>
      refine .receive hparse hport hheard fun hflag => ?_
      rwa [if_pos hflag] at hrst

/-- **Every event is one of the operations.** -/
theorem tcpStepOf_tcpStep (event : TcpEvent) : TcpStepOf tcp event (tcpStep tcp event) := by
  have hsame : TcpStepOf tcp event tcp := .prepare (.refl tcp)
  unfold tcpStep
  split
  · exact hsame
  cases event with
  | rx pshdrCsum packet env =>
    simp only [tcpRx]
    cases hparse : tcpParse pshdrCsum packet with
    | error rc => exact hsame
    | ok segment =>
      simp only
      split
      · exact hsame
      · next hport => exact tcpStepOf_tcpRxSegment hparse (not_not.1 (not_or.1 hport).2) env
  | discard => exact .discard
  | process env =>
    simp only
    split
    · exact .xmit ⟨_, _, _, _, _, _, rfl⟩ env
    · exact hsame
  | expired fail env =>
    simp only [tcpExpired]
    split
    · split
      · exact .abort
      · exact .expired env
    · exact hsame
  | keepaliveExpired env =>
    simp only
    split
    · exact .xmit ⟨_, _, _, _, _, _, rfl⟩ env
    · exact hsame
  | waitExpired =>
    simp only
    split
    · exact .abort
    · exact hsame
  | xferDeliver data env =>
    simp only
    split
    · exact hsame
    · exact .xmit ⟨_, _, _, _, _, _, rfl⟩ env
  | xferClose env =>
    simp only
    split
    · exact hsame
    · exact .close env

/-- The content of a segment, once queued and processed, is acknowledged at once or later. -/
theorem tcpRxContent_prepares (seq : BitVec 32) (segment : TcpSegment) (env : TcpRxEnv) :
    let queued := tcpProcessRxQueue (tcpRxEnqueue tcp seq segment.flags.fin segment.data) env.discards
    Prepares queued (tcpRxContent tcp seq segment env) ∨
      Prepares (tcpXmitSack queued seq env.xmit) (tcpRxContent tcp seq segment env) := by
  unfold tcpRxContent
  simp only
  generalize tcpProcessRxQueue (tcpRxEnqueue tcp seq segment.flags.fin segment.data)
    env.discards = queued
  by_cases hempty : queued.rxQueue = []
  · left
    rw [if_pos hempty]
    split <;> exact ⟨_, _, _, _, _, _, rfl⟩
  · right
    rw [if_neg hempty]
    split <;> exact ⟨_, _, _, _, _, _, rfl⟩

end Ipxe.Analysis
