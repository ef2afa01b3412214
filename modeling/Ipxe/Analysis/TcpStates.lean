import Ipxe.Analysis.TcpReceive
import Ipxe.Analysis.TcpTransmit

/-!
# The states of a TCP connection

From a state that the header file names, each change of the flags leads to another one, with two
exceptions: our SYN is acknowledged by a segment without SYN while none has been received, and the
connection is closed after a SYN was received but before ours was sent (`SynSettled`).
-/

namespace Ipxe.Analysis

open Library Model Interface List

/-- The states of a connection that has not been deleted. -/
def liveStates : List TcpState :=
  [.synSent, .synRcvd, .established, .finWait1, .finWait2, .closingOrLastAck, .timeWait, .closeWait]

/-- The combinations that the header file names.
[include/ipxe/tcp.h:202-277] -/
def namedStates : List TcpState := .closed :: .listen :: liveStates

variable (state : TcpState)

/-- See net/tcp.c:1158-1178 -/
def ackSending : TcpState :=
  { state with
    acked :=
      { state.acked with
        syn := state.acked.syn || state.sending.syn
        fin := state.acked.fin || state.sending.fin } }

/-- See net/tcp.c:1100-1102 -/
def rcvSyn : TcpState :=
  { state with
    sent := { state.sent with ack := true }
    rcvd := { state.rcvd with syn := true } }

/-- See net/tcp.c:1249 -/
def rcvFin : TcpState :=
  { state with rcvd := { state.rcvd with fin := true } }

/-- Our SYN has been acknowledged, but none received: a combination without a name. -/
def synAcked : TcpState := { sent := { syn := true }, acked := { syn := true } }

/-- A FIN has been received before our SYN was acknowledged: another one, which lasts until
`tcp_close` has acknowledged the SYN. -/
def synRcvdFin : TcpState := rcvFin .synRcvd

theorem ackSending_live : ∀ state ∈ liveStates, ackSending state ∈ synAcked :: liveStates := by
  decide

theorem sendFin_ackSending_live :
    ∀ state ∈ liveStates, state.rcvd.syn = true → (ackSending state).sendFin ∈ liveStates := by
  decide

theorem rcvSyn_live : ∀ state ∈ synAcked :: liveStates, rcvSyn state ∈ liveStates := by
  decide

theorem rcvFin_live : ∀ state ∈ liveStates, state.rcvd.syn = true →
    rcvFin state ∈ synRcvdFin :: liveStates := by
  decide

theorem closing_live : ∀ state ∈ synRcvdFin :: liveStates, state.rcvd.syn = true →
    (state.acked.syn = true → state ∈ liveStates ∧ state.sendFin ∈ liveStates) ∧
    ackSending state ∈ liveStates ∧ (ackSending state).sendFin ∈ liveStates := by
  decide

theorem ackedSyn_of_not_sending :
    ∀ state ∈ synRcvdFin :: synAcked :: liveStates, state.sending.syn = !state.acked.syn := by
  decide

theorem ackSending_unsent : (ackSending state).sending.syn = false := by
  simp only [ackSending, TcpState.sending]
  cases state.sent.syn <;> cases state.acked.syn <;> rfl

structure LiveIn (states : List TcpState) (tcp : TcpConnection) : Prop where
  state : tcp.state ∈ states
  /-- the interface is closed, or packets are held, only once a SYN has been received -/
  opened : tcp.xferClosed = true → tcp.state.rcvd.syn = true
  queue : tcp.rxQueue ≠ [] → tcp.state.rcvd.syn = true
  /-- before our SYN has been sent no FIN is held -/
  early : tcp.state.sending.syn = true → tcp.sndSent = 0 →
    ∀ queued ∈ tcp.rxQueue, queued.fin = false

variable (tcp : TcpConnection)

abbrev Live : Prop := LiveIn liveStates tcp

/-- A connection that is deleted is in CLOSED. -/
def Orderly : Prop := tcp.deleted = true ∧ tcp.state = .closed ∨ Live tcp

theorem state_tcpXmitSack (sackSeq : BitVec 32) (env : TcpXmitEnv) :
    (tcpXmitSack tcp sackSeq env).state = tcp.state := by
  obtain ⟨sndSent, timer, rxQueue, rcvWin, sack, ackPending, fresh, heq, -⟩ :=
    tcpXmitSack_eq tcp sackSeq env
  rw [heq]

section

variable {states : List TcpState} {tcp tcp' : TcpConnection}

theorem LiveIn.prepares (h : LiveIn states tcp) (hp : Prepares tcp tcp') : LiveIn states tcp' := by
  obtain ⟨_, _, _, _, _, _, rfl⟩ := hp
  exact ⟨h.state, h.opened, h.queue, h.early⟩

theorem LiveIn.shrink (h : LiveIn states tcp) (hstate : tcp'.state = tcp.state)
    (hclosed : tcp'.xferClosed = tcp.xferClosed) (hqueue : tcp'.rxQueue.Sublist tcp.rxQueue)
    (hsent : tcp.state.sending.syn = true → tcp'.sndSent = 0 → tcp.sndSent = 0) :
    LiveIn states tcp' where
  state := by rw [hstate]; exact h.state
  opened := by rw [hstate, hclosed]; exact h.opened
  queue hne := by
    rw [hstate]
    refine h.queue fun hempty => hne ?_
    rw [hempty] at hqueue
    exact sublist_nil.1 hqueue
  early hsyn hzero queued hmem := by
    rw [hstate] at hsyn
    exact h.early hsyn (hsent hsyn hzero) queued (hqueue.subset hmem)

theorem sndSent_tcpDiscards (n : ℕ) (tcp : TcpConnection) :
    (tcpDiscards n tcp).sndSent = tcp.sndSent := by
  obtain ⟨rxQueue, heq, -⟩ := tcpDiscards_eq n tcp
  rw [heq]

theorem LiveIn.discards (h : LiveIn states tcp) (n : ℕ) : LiveIn states (tcpDiscards n tcp) := by
  have hframe := rxFrame_tcpDiscards n tcp
  refine h.shrink (state_tcpDiscards n tcp) hframe.xferClosed hframe.rxQueue.sublist fun _ hzero => ?_
  rwa [sndSent_tcpDiscards] at hzero

theorem LiveIn.xmit (h : LiveIn states tcp) (sackSeq : BitVec 32) (env : TcpXmitEnv) :
    LiveIn states (tcpXmitSack tcp sackSeq env) := by
  have hframe := rxFrame_tcpXmitSack tcp sackSeq env
  refine h.shrink (state_tcpXmitSack tcp sackSeq env) hframe.xferClosed hframe.rxQueue.sublist ?_
  intro hsyn hzero
  rcases (transmits_tcpXmitSack tcp sackSeq env).sndSent with hsent | hsent
  · rwa [hsent] at hzero
  · have hphantom : phantom tcp.state = true := by
      unfold phantom
      rw [hsyn, Bool.true_or]
    have hlen : tcpTxSeqLen tcp = 1 := by
      have hone : tcpTxSeqLen tcp = (tcpTxData tcp).length + (phantom tcp.state).toNat := rfl
      rw [hone, hphantom, tcpTxData_eq, not_canSendData_of_phantom hphantom]
      rfl
    rw [hsent, hlen] at hzero
    exact absurd hzero (by decide)

/-! ## Acknowledgements and closing -/

/-- **What an acknowledgement does to the state.** -/
theorem tcpRxAck_state {ack win : BitVec 32} (h : tcpRxAck tcp ack win = .ok tcp') :
    acceptedAck tcp ack = 0 ∧ tcp'.state = tcp.state ∧ tcp'.sndSent = tcp.sndSent ∨
    acceptedAck tcp ack ≠ 0 ∧ (tcp'.state = ackSending tcp.state ∨
      tcp.xferClosed = true ∧ tcp'.state = (ackSending tcp.state).sendFin) := by
  have haccepted : ¬ (ack - tcp.sndSeq).toNat > tcp.sndSent.toNat →
      acceptedAck tcp ack = (ack - tcp.sndSeq).toNat := fun hrange => if_pos (by omega)
  unfold tcpRxAck at h
  simp only at h
  split_ifs at h with hrange hestablished hzero hacked hfin hfin <;> cases h
  · exact .inl ⟨if_neg (by omega), rfl, rfl⟩
  · exact .inl ⟨(haccepted hrange).trans hzero, rfl, rfl⟩
  · exact .inr ⟨haccepted hrange ▸ hzero, .inr ⟨hfin.2.1, rfl⟩⟩
  · exact .inr ⟨haccepted hrange ▸ hzero, .inl rfl⟩
  · exact .inr ⟨haccepted hrange ▸ hzero, .inr ⟨hfin.2.1, rfl⟩⟩
  · exact .inr ⟨haccepted hrange ▸ hzero, .inl rfl⟩

theorem acceptedAck_of_error {ack win : BitVec 32} {rc : Errno}
    (h : tcpRxAck tcp ack win = .error rc) : acceptedAck tcp ack = 0 := by
  unfold acceptedAck
  unfold tcpRxAck at h
  simp only at h
  split_ifs at h with hrange
  rw [if_neg (by omega)]

/-- Our SYN may be acknowledged before one has been received. -/
theorem Live.rxAck (h : Live tcp) {ack win : BitVec 32} (hack : tcpRxAck tcp ack win = .ok tcp') :
    LiveIn (synAcked :: liveStates) tcp' ∧
    (tcp'.state.sending.syn = true → tcp.state.sending.syn = true ∧ tcp'.sndSent = tcp.sndSent) ∧
    (tcp'.state = synAcked → tcp.state = .synSent ∧ acceptedAck tcp ack ≠ 0) := by
  have hframe := rxFrame_tcpRxAck hack
  have hrcvd := hframe.rcvd
  have hqueue := rxQueue_tcpRxAck hack
  have hclosed := hframe.xferClosed
  have hnew {state : TcpState} (hmem : state ∈ synAcked :: liveStates)
      (heq : tcp'.state = state) (hunsent : state.sending.syn = false) :
      LiveIn (synAcked :: liveStates) tcp' :=
    { state := heq ▸ hmem
      opened := by rw [hclosed, hrcvd]; exact h.opened
      queue := by rw [hqueue, hrcvd]; exact h.queue
      early := fun hsyn => by rw [heq, hunsent] at hsyn; cases hsyn }
  rcases tcpRxAck_state hack with ⟨-, hstate, hsent⟩ | ⟨hne, hstate | ⟨hshut, hstate⟩⟩
  · refine ⟨?_, fun hsyn => ⟨hstate ▸ hsyn, hsent⟩, fun heq => ?_⟩
    · refine LiveIn.shrink ⟨mem_cons_of_mem _ h.state, h.opened, h.queue, h.early⟩ hstate
        hclosed (by rw [hqueue]) fun _ hzero => ?_
      rwa [hsent] at hzero
    · have hlive := h.state
      rw [← hstate, heq] at hlive
      exact absurd hlive (by decide)
  · have hunsent := ackSending_unsent tcp.state
    refine ⟨hnew (ackSending_live _ h.state) hstate hunsent, fun hsyn => ?_, fun heq => ⟨?_, hne⟩⟩
    · rw [hstate, hunsent] at hsyn
      cases hsyn
    · have honly : ∀ state ∈ liveStates, ackSending state = synAcked → state = .synSent := by
        decide
      exact honly _ h.state (hstate ▸ heq)
  · have hsyn := h.opened hshut
    have hlive := sendFin_ackSending_live _ h.state hsyn
    have hunsent : (ackSending tcp.state).sendFin.sending.syn = false := ackSending_unsent tcp.state
    refine ⟨hnew (mem_cons_of_mem _ hlive) hstate hunsent, fun hsending => ?_, fun heq => ?_⟩
    · rw [hstate, hunsent] at hsending
      cases hsending
    · rw [← hstate, heq] at hlive
      exact absurd hlive (by decide)

/-- **Closing** acknowledges the SYN if it has been sent, and starts the FIN. -/
theorem live_tcpCloseSend (hstate : tcp.state ∈ synRcvdFin :: liveStates)
    (hsyn : tcp.state.rcvd.syn = true)
    (hsent : tcp.state.sending.syn = true → tcp.sndSent ≠ 0) : Live (tcpCloseSend tcp) := by
  obtain ⟨hacked, hack, hackfin⟩ := closing_live tcp.state hstate hsyn
  -- the SYN is acknowledged, and with it perhaps the FIN started
  have hsynAcked : (tcpSynAcked tcp).state ∈ liveStates ∧
      (tcpSynAcked tcp).state.sendFin ∈ liveStates ∧
      (tcpSynAcked tcp).state.sending.syn = false := by
    unfold tcpSynAcked
    split
    · next h =>
        refine ⟨(hacked h).1, (hacked h).2, ?_⟩
        simp only [TcpState.sending, h, Bool.not_true, Bool.and_false]
    · next h =>
        have hsending : tcp.state.sending.syn = true := by
          rw [ackedSyn_of_not_sending tcp.state]
          · simpa using h
          · rcases mem_cons.1 hstate with heq | hmem
            · exact mem_cons.2 (.inl heq)
            · exact mem_cons_of_mem _ (mem_cons_of_mem _ hmem)
        have haccepted : acceptedAck tcp (tcp.sndSeq + 1) ≠ 0 := by
          have hone : (tcp.sndSeq + 1 - tcp.sndSeq).toNat = 1 := by
            rw [add_sub_cancel_left]
            rfl
          have hpos : tcp.sndSent.toNat ≠ 0 := fun hzero =>
            hsent hsending (BitVec.eq_of_toNat_eq hzero)
          rw [acceptedAck, hone, if_pos (by omega)]
          decide
        have hunsent := ackSending_unsent tcp.state
        cases hrx : tcpRxAck tcp (tcp.sndSeq + 1) 0 with
        | error rc => exact absurd (acceptedAck_of_error hrx) haccepted
        | ok tcp' =>
          have hact : tcpAct tcp (.rxAck (tcp.sndSeq + 1) 0) = tcp' := by simp only [tcpAct, hrx]
          rw [hact]
          rcases tcpRxAck_state hrx with ⟨hzero, -⟩ | ⟨-, heq | ⟨-, heq⟩⟩
          · exact absurd hzero haccepted
          · rw [heq]
            exact ⟨hack, hackfin, hunsent⟩
          · rw [heq]
            exact ⟨hackfin, hackfin, hunsent⟩
  obtain ⟨hlive, hlivefin, hunsent⟩ := hsynAcked
  have hrcvd : (tcpCloseSend tcp).state.rcvd.syn = true := by
    rw [(rxFrame_tcpCloseSend tcp).rcvd]
    exact hsyn
  refine ⟨?_, fun _ => hrcvd, fun _ => hrcvd, fun hsending => ?_⟩
  · rw [tcpCloseSend_eq]
    split
    · exact hlivefin
    · exact hlive
  · have hnot : (tcpCloseSend tcp).state.sending.syn = false := by
      rw [tcpCloseSend_eq]
      split <;> exact hunsent
    rw [hnot] at hsending
    cases hsending

theorem tcpClose_of_rcvd (h : tcp.state.rcvd.syn = true) :
    tcpClose tcp = tcpCloseSend { tcp with xferClosed := true } :=
  if_pos h

theorem Live.close (h : Live tcp) (hsent : tcp.state = .synRcvd → tcp.sndSent ≠ 0) :
    Orderly (tcpClose tcp) := by
  unfold tcpClose
  simp only
  split
  · next hsyn =>
      refine .inr (live_tcpCloseSend (mem_cons_of_mem _ h.state) hsyn fun hsending => ?_)
      have honly : ∀ state ∈ liveStates, state.rcvd.syn = true → state.sending.syn = true →
          state = .synRcvd := by
        decide
      exact hsent (honly _ h.state hsyn hsending)
  · exact .inl ⟨rfl, rfl⟩

theorem Live.rxSyn (h : LiveIn (synAcked :: liveStates) tcp) (seq : BitVec 32)
    (options : TcpOptions) : Live (tcpRxSyn tcp seq options) := by
  have hrcv := rcvSyn_live tcp.state h.state
  have hsynced (tcp' : TcpConnection) (hstate : tcp'.state = rcvSyn tcp.state)
      (hqueue : tcp'.rxQueue = tcp.rxQueue) (hsent : tcp'.sndSent = tcp.sndSent) : Live tcp' := by
    have hsyn : tcp'.state.rcvd.syn = true := by rw [hstate]; rfl
    refine ⟨hstate ▸ hrcv, fun _ => hsyn, fun _ => hsyn, fun hsending hzero => ?_⟩
    rw [hstate] at hsending
    rw [hsent] at hzero
    rw [hqueue]
    exact h.early hsending hzero
  unfold tcpRxSyn
  cases hsyn : tcp.state.rcvd.syn with
  | false =>
    simp only [Bool.false_eq_true, if_false, tcpSynchronise, ne_eq]
    exact hsynced _ rfl rfl rfl
  | true =>
    simp only [if_true]
    split
    · have hlive : ∀ state ∈ synAcked :: liveStates, state.rcvd.syn = true →
          state ∈ liveStates := by
        decide
      exact ⟨hlive _ h.state hsyn, h.opened, h.queue, h.early⟩
    · exact hsynced _ rfl rfl rfl

theorem Live.enqueue (h : Live tcp) (seq : BitVec 32) {fin : Bool} (data : Bytes)
    (hfin : fin = true → tcp.state.sending.syn = true → tcp.sndSent ≠ 0) :
    Live (tcpRxEnqueue tcp seq fin data) := by
  unfold tcpRxEnqueue
  simp only
  split
  · exact h
  · next hkeep =>
      simp only [not_or, not_not] at hkeep
      refine ⟨h.state, h.opened, fun _ => hkeep.1, fun hsending hzero queued hmem => ?_⟩
      rcases mem_tcpRxInsert hmem with rfl | hmem
      · by_contra hset
        exact hfin (by simpa using hset) hsending hzero
      · exact h.early hsending hzero queued hmem

theorem Live.rxData (h : Live tcp) (seq : BitVec 32) (data : Bytes) (discards : ℕ) :
    Live (tcpRxData tcp seq data discards) := by
  unfold tcpRxData tcpDeliver
  simp only
  split
  · exact h
  · apply LiveIn.discards
    exact ⟨h.state, h.opened, h.queue, h.early⟩

theorem sndSent_tcpRxData (tcp : TcpConnection) (seq : BitVec 32) (data : Bytes)
    (discards : ℕ) : (tcpRxData tcp seq data discards).sndSent = tcp.sndSent := by
  unfold tcpRxData tcpDeliver
  simp only
  split
  · rfl
  · rw [sndSent_tcpDiscards]
    rfl

theorem Live.rxFin (h : Live tcp) (hsyn : tcp.state.rcvd.syn = true)
    (hsent : tcp.state.sending.syn = true → tcp.sndSent ≠ 0) (seq : BitVec 32) :
    Live (tcpRxFin tcp seq) := by
  unfold tcpRxFin
  split
  · exact h
  · rw [tcpClose_of_rcvd (by exact hsyn)]
    apply live_tcpCloseSend
    · exact rcvFin_live tcp.state h.state hsyn
    · exact hsyn
    · exact hsent

/-- **A packet taken off the queue**: its FIN is only there if the SYN has been sent. -/
theorem Live.processQueued {queue : List TcpRxQueued} {queued : TcpRxQueued} (h : Live tcp)
    (hqueue : tcp.rxQueue = queued :: queue) (discards : ℕ) :
    Live (tcpProcessQueued { tcp with rxQueue := queue } queued discards) := by
  have hsyn : tcp.state.rcvd.syn = true := h.queue (by rw [hqueue]; exact cons_ne_nil _ _)
  have hrest : Live { tcp with rxQueue := queue } := by
    refine h.shrink rfl rfl ?_ fun _ hzero => hzero
    rw [hqueue]
    exact sublist_cons_self _ _
  have hdata := hrest.rxData queued.seq queued.data discards
  have hstate := @state_tcpRxData { tcp with rxQueue := queue } queued.seq queued.data discards
  unfold tcpProcessQueued
  split
  · next hfin =>
      refine hdata.rxFin (by rw [hstate]; exact hsyn) (fun hsending hzero => ?_) _
      rw [hstate] at hsending
      rw [sndSent_tcpRxData] at hzero
      have hnone := h.early hsending hzero queued (by rw [hqueue]; exact mem_cons_self)
      rw [hnone] at hfin
      cases hfin
  · exact hdata

theorem Live.processRxQueue (h : Live tcp) (discards : List ℕ) :
    Live (tcpProcessRxQueue tcp discards) := by
  fun_induction tcpProcessRxQueue tcp discards with
  | case1 => exact h
  | case2 => exact h
  | case3 tcp discards queued queue hqueue hcmp ih => exact ih (h.processQueued hqueue _)

theorem Live.rxContent (h : Live tcp) {segment : TcpSegment}
    (hfin : segment.flags.fin = true → tcp.state.sending.syn = true → tcp.sndSent ≠ 0)
    (seq : BitVec 32) (env : TcpRxEnv) : Live (tcpRxContent tcp seq segment env) := by
  have hqueue := (h.enqueue seq segment.data hfin).processRxQueue env.discards
  rcases tcpRxContent_prepares tcp seq segment env with hp | hp
  · exact hqueue.prepares hp
  · exact (hqueue.xmit seq env.xmit).prepares hp

end

/-! ## Events and runs -/

/-- A FIN, or the application's close after a SYN, comes only once our SYN has been sent; and
our SYN is not acknowledged by a segment without SYN or RST while none has been received. -/
def SynSettled : TcpEvent → Prop
  | .rx pshdrCsum packet _ => ∀ segment, tcpParse pshdrCsum packet = .ok segment →
      segment.dest = tcp.localPort →
      (segment.flags.fin = true → tcp.state.sending.syn = true → tcp.sndSent ≠ 0) ∧
      (tcp.state = .synSent → segment.flags.ack = true → acceptedAck tcp segment.ack ≠ 0 →
        segment.flags.syn = true ∨ segment.flags.rst = true)
  | .xferClose _ => tcp.state = .synRcvd → tcp.sndSent ≠ 0
  | _ => True

section

variable {tcp tcp₁ : TcpConnection} {segment : TcpSegment} (h : Live tcp)
  (hheard : Hears tcp segment tcp₁)
include h hheard

theorem Live.hears :
    LiveIn (synAcked :: liveStates) tcp₁ ∧
    (tcp₁.state.sending.syn = true → tcp.state.sending.syn = true ∧ tcp₁.sndSent = tcp.sndSent) ∧
    (tcp₁.state = synAcked → tcp.state = .synSent ∧ segment.flags.ack = true ∧
      acceptedAck tcp segment.ack ≠ 0) := by
  cases hheard with
  | unacked hp =>
    have hlive := h.prepares hp
    obtain ⟨_, _, _, _, _, _, rfl⟩ := hp
    exact ⟨⟨mem_cons_of_mem _ hlive.state, hlive.opened, hlive.queue, hlive.early⟩,
      fun hsyn => ⟨hsyn, rfl⟩, fun heq => absurd (heq ▸ hlive.state) (by decide)⟩
  | acked hbefore hflag hack hafter =>
    have hlive := h.prepares hbefore
    obtain ⟨_, _, _, _, _, _, rfl⟩ := hbefore
    obtain ⟨hacked, hunacked, honly⟩ := Live.rxAck hlive hack
    refine ⟨hacked.prepares hafter, ?_⟩
    obtain ⟨_, _, _, _, _, _, rfl⟩ := hafter
    exact ⟨hunacked, fun heq => ⟨(honly heq).1, hflag, (honly heq).2⟩⟩

/-- What is heard of a segment, up to its SYN, leads to a state with a name unless the
RST that the segment carries is accepted. -/
theorem Live.heardSyn
    (hfirst : tcp.state = .synSent → segment.flags.ack = true → acceptedAck tcp segment.ack ≠ 0 →
      segment.flags.syn = true ∨ segment.flags.rst = true)
    (hrst : segment.flags.rst = true →
      tcpRxRst (tcpHeardSyn tcp₁ segment) (contentSeq segment) = none) :
    Live (tcpHeardSyn tcp₁ segment) := by
  obtain ⟨hlive, -, honly⟩ := h.hears hheard
  unfold tcpHeardSyn at hrst ⊢
  split
  · exact Live.rxSyn hlive _ _
  · next hsyn =>
      rw [if_neg hsyn] at hrst
      rcases mem_cons.1 hlive.state with heq | hmem
      · -- only the RST can be the reason why such a segment is allowed, and it is accepted
        obtain ⟨hsent, hack, haccepted⟩ := honly heq
        have hreset := hrst ((hfirst hsent hack haccepted).resolve_left hsyn)
        simp only [tcpRxRst, heq, synAcked, Bool.not_true] at hreset
        cases hreset
      · exact ⟨hmem, hlive.opened, hlive.queue, hlive.early⟩

/-- What is heard before the content changes the outstanding SYN only by
acknowledging it. -/
theorem Live.heardSyn_sent (hsent : tcp.state.sending.syn = true → tcp.sndSent ≠ 0) :
    (tcpHeardSyn tcp₁ segment).state.sending.syn = true →
      (tcpHeardSyn tcp₁ segment).sndSent ≠ 0 := by
  have hmid : tcp₁.state.sending.syn = true → tcp₁.sndSent ≠ 0 := by
    intro hsending
    obtain ⟨hold, hsame⟩ := (h.hears hheard).2.1 hsending
    exact hsame ▸ hsent hold
  unfold tcpHeardSyn tcpRxSyn
  split
  · simp only
    split <;> split <;> exact hmid
  · exact hmid

end

/-- **One event leads to a state that has a name.** -/
theorem orderly_tcpStep (event : TcpEvent) (h : Orderly tcp)
    (hevent : SynSettled tcp event) : Orderly (tcpStep tcp event) := by
  rcases h with ⟨hdeleted, hclosed⟩ | h
  · unfold tcpStep
    rw [if_pos hdeleted]
    exact .inl ⟨hdeleted, hclosed⟩
  have hstep := tcpStepOf_tcpStep tcp event
  generalize tcpStep tcp event = tcp' at hstep
  cases hstep with
  | prepare hp => exact .inr (h.prepares hp)
  | discard => exact .inr (h.discards 1)
  | xmit hp env => exact .inr ((h.prepares hp).xmit _ env)
  | expired env =>
    have hstopped : Live { tcp with timer := false } := ⟨h.state, h.opened, h.queue, h.early⟩
    exact .inr (hstopped.xmit _ env)
  | abort => exact .inl ⟨rfl, rfl⟩
  | close env =>
    rcases h.close hevent with ⟨hdeleted, hclosed⟩ | hlive
    · refine .inl ⟨?_, (state_tcpXmitSack _ _ _).trans hclosed⟩
      exact (rxFrame_tcpXmitSack _ _ _).deleted.trans hdeleted
    · exact .inr (hlive.xmit _ env)
  | reset => exact .inl ⟨rfl, rfl⟩
  | receive hparse hport hheard hrst =>
    obtain ⟨hfin, hfirst⟩ := hevent _ hparse hport
    refine .inr ((h.heardSyn hheard hfirst hrst).rxContent (fun hflag => ?_) _ _)
    exact h.heardSyn_sent hheard (hfin hflag)

/-- **TCP state legality.**  If the SYN of a connection is sent before a FIN or a close follows a
received SYN, and not acknowledged by a segment without SYN while none has been received, then it
never sends SYN and FIN in one segment, and its state is one that the header file names. -/
theorem tcp_state_legal (localPort mtu : ℕ) (sndSeq : BitVec 32) (events : List TcpEvent)
    (hevents : Meets tcpStep SynSettled (tcpOpen localPort mtu sndSeq) events) :
    let tcp := run tcpStep (tcpOpen localPort mtu sndSeq) events
    ¬ (tcp.state.sending.syn = true ∧ tcp.state.sending.fin = true) ∧ tcp.state ∈ namedStates := by
  have hopen : Orderly (tcpOpen localPort mtu sndSeq) := by
    refine .inr ⟨mem_cons_self, fun h => ?_, fun h => absurd rfl h, fun _ _ => ?_⟩
    · cases h
    · exact forall_mem_nil _
  have hnamed : (run tcpStep (tcpOpen localPort mtu sndSeq) events).state ∈ namedStates := by
    rcases run_invariant orderly_tcpStep hopen hevents with ⟨-, hclosed⟩ | hlive
    · rw [hclosed]
      exact mem_cons_self
    · exact mem_cons_of_mem _ (mem_cons_of_mem _ hlive.state)
  have hapart : ∀ state ∈ namedStates, ¬ (state.sending.syn = true ∧ state.sending.fin = true) := by
    decide
  exact ⟨hapart _ hnamed, hnamed⟩

/-- The exchange of `wrappingEvents`, in which the connection is closed by the peer. -/
theorem tcp_state_legal_wrapping :
    (run tcpStep (tcpOpen 1024 1500 0) wrappingEvents).state ∈ namedStates := by
  refine (tcp_state_legal 1024 1500 0 wrappingEvents ?_).2
  have hsettled (tcp : TcpConnection) (pshdrCsum : UInt16) (packet : Bytes) (env : TcpRxEnv)
      (hstate : tcp.state = .synSent ∧ (TcpFlags.ofByte (packet.getD 13 0)).syn = true ∧
          (TcpFlags.ofByte (packet.getD 13 0)).fin = false ∨
        tcp.state ≠ .synSent ∧ tcp.state.sending.syn = false) :
      SynSettled tcp (.rx pshdrCsum packet env) := by
    intro segment hparse _
    obtain ⟨-, hflags, -⟩ := tcpParse_fields hparse
    rw [← hflags] at hstate
    rcases hstate with ⟨-, hsyn, hfin⟩ | ⟨hne, hsent⟩
    · exact ⟨fun h => absurd (hfin ▸ h) (by decide), fun _ _ _ => .inl hsyn⟩
    · exact ⟨fun _ h => absurd (hsent ▸ h) (by decide), fun h => absurd h hne⟩
  refine ⟨trivial, ?_, trivial, trivial, ?_, ?_, ?_, trivial⟩
  all_goals exact hsettled _ _ _ _ (by decide +kernel)

/-- An acknowledgement of our SYN without SYN, and a SYN of the peer before ours. -/
def pureAck : Bytes := [0, 80, 4, 0, 0, 0, 0, 9, 0, 0, 0, 1, 0x50, 0x10, 0x10, 0, 0, 0, 0, 0]

def earlySyn : Bytes := [0, 80, 4, 0, 0, 0, 0, 9, 0, 0, 0, 0, 0x50, 2, 0x10, 0, 0, 0, 0, 0]

/-- **Two ways out of the named states.**  An acknowledgement without SYN is accepted in
SYN_SENT.  And a SYN that arrives before ours has been sent, followed by the application's
close, makes the connection send SYN and FIN in one segment. -/
theorem tcp_state_legal_broken :
    (run tcpStep (tcpOpen 1024 1500 0) [.expired false {}, .rx 27236 pureAck {}]).state ∉
      namedStates ∧
    (run tcpStep (tcpOpen 1024 1500 0)
        [.rx 23396 earlySyn {}, .xferClose {}, .expired false {}]).transmitted.map
          (fun segment => (segment.flags.syn, segment.flags.fin)) = [(true, true)] := by
  decide +kernel

end Ipxe.Analysis
