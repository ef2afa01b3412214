import Ipxe.Interface.TcpStream
import Ipxe.Analysis.TcpSteps

/-!
# TCP transmits the application's stream

The transmit queue holds the stream from its byte `una - 1` on, and `snd_seq` is the number of that
byte (`TxInv`); `snd_sent` never counts more than there is.
-/

namespace Ipxe.Analysis

open Library Model Interface List BitVec

theorem tcpProcessTxQueue_flatten (queue : List Bytes) (maxLen : ℕ) :
    (tcpProcessTxQueue queue maxLen).1 = queue.flatten.take maxLen ∧
      (tcpProcessTxQueue queue maxLen).2.1.flatten = queue.flatten.drop maxLen := by
  induction queue generalizing maxLen with
  | nil => simp [tcpProcessTxQueue]
  | cons iobuf queue ih =>
    have hrest : maxLen - min iobuf.length maxLen = maxLen - iobuf.length := by omega
    obtain ⟨htake, hdrop⟩ := ih (maxLen - iobuf.length)
    simp only [tcpProcessTxQueue, hrest, flatten_cons, take_append, drop_append]
    split
    · next hempty => exact ⟨by rw [htake], by rw [hempty, nil_append, hdrop]⟩
    · exact ⟨by rw [htake], by rw [flatten_cons, hdrop]⟩

variable (tcp : TcpConnection)

/-- The queue that an acknowledgement of `len` bytes leaves. -/
def tcpAckedQueue (len : ℕ) : List Bytes :=
  (tcpProcessTxQueue tcp.txQueue len).2.1

theorem flatten_tcpAckedQueue (len : ℕ) :
    (tcpAckedQueue tcp len).flatten = tcp.txQueue.flatten.drop len :=
  (tcpProcessTxQueue_flatten tcp.txQueue len).2

theorem tcpTxData_eq :
    tcpTxData tcp =
      if tcp.state.canSendData then tcp.txQueue.flatten.take (tcpXmitWin tcp) else [] := by
  unfold tcpTxData
  rw [(tcpProcessTxQueue_flatten tcp.txQueue (tcpXmitWin tcp)).1]

/-- A SYN or a FIN is being sent. -/
def phantom (state : TcpState) : Bool := state.sending.syn || state.sending.fin

/-- The invariant of the transmit side. -/
structure TxInv (iss : BitVec 32) (stream : Bytes) (una : ℕ) (tcp : TcpConnection) : Prop where
  counted : tcp.sndSeq = iss + BitVec.ofNat 32 una
  queued : tcp.deleted = false → tcp.txQueue.flatten = stream.drop (una - 1)
  /-- until the FIN is sent, only bytes of the stream are acknowledged -/
  within : tcp.deleted = false → tcp.state.sent.fin = false → una - 1 ≤ stream.length
  /-- no more is outstanding than there is to send -/
  sent : tcp.deleted = false →
    tcp.sndSent.toNat ≤ if phantom tcp.state then 1 else tcp.txQueue.flatten.length
  /-- the SYN comes first -/
  sentSyn : tcp.deleted = false → tcp.state.sent.syn = true
  unsynced : tcp.deleted = false → tcp.state.acked.syn = false → una = 0
  synced : tcp.state.acked.syn = true → 1 ≤ una
  /-- and the FIN last -/
  fin : tcp.state.sent.fin = true → tcp.txQueue = [] ∧ tcp.xferClosed = true
  gone : tcp.deleted = true → tcp.txQueue = [] ∧ tcp.state.sent.syn = false ∧
    tcp.state.acked.syn = false ∧ tcp.xferClosed = true

/-- The transmit side is unchanged, except for what is outstanding. -/
structure TxFrame (tcp tcp' : TcpConnection) : Prop where
  sndSeq : tcp'.sndSeq = tcp.sndSeq
  txQueue : tcp'.txQueue = tcp.txQueue
  xferClosed : tcp'.xferClosed = tcp.xferClosed
  deleted : tcp'.deleted = tcp.deleted
  sentSyn : tcp'.state.sent.syn = tcp.state.sent.syn
  sentFin : tcp'.state.sent.fin = tcp.state.sent.fin
  acked : tcp'.state.acked = tcp.state.acked

theorem TxFrame.phantom_eq {tcp tcp' : TcpConnection} (h : TxFrame tcp tcp') :
    phantom tcp'.state = phantom tcp.state := by
  simp only [phantom, TcpState.sending, h.sentSyn, h.sentFin, h.acked]

section

variable {iss : BitVec 32} {stream : Bytes} {una : ℕ} {tcp tcp' : TcpConnection}

theorem TxInv.frame (hinv : TxInv iss stream una tcp) (h : TxFrame tcp tcp')
    (hsent : tcp'.deleted = false → tcp'.sndSent.toNat ≤
      if phantom tcp'.state then 1 else tcp'.txQueue.flatten.length) :
    TxInv iss stream una tcp' where
  counted := by rw [h.sndSeq]; exact hinv.counted
  queued := by rw [h.deleted, h.txQueue]; exact hinv.queued
  within := by rw [h.deleted, h.sentFin]; exact hinv.within
  sent := hsent
  sentSyn := by rw [h.deleted, h.sentSyn]; exact hinv.sentSyn
  unsynced := by rw [h.deleted, h.acked]; exact hinv.unsynced
  synced := by rw [h.acked]; exact hinv.synced
  fin := by rw [h.sentFin, h.txQueue, h.xferClosed]; exact hinv.fin
  gone := by rw [h.deleted, h.txQueue, h.sentSyn, h.acked, h.xferClosed]; exact hinv.gone

theorem TxInv.frame_sent (hinv : TxInv iss stream una tcp) (h : TxFrame tcp tcp')
    (hsent : tcp'.sndSent = tcp.sndSent) : TxInv iss stream una tcp' := by
  refine hinv.frame h ?_
  rw [h.deleted, hsent, h.phantom_eq, h.txQueue]
  exact hinv.sent

/-- A segment that carries what a connection has to send. -/
structure SegmentOf (tcp : TcpConnection) (segment : TcpTxSegment) : Prop where
  seq : segment.seq = tcp.sndSeq
  data : segment.data = tcpTxData tcp
  fin : segment.flags.fin = tcp.state.sending.fin

/-- What a transmission does to the transmit side. -/
structure Transmits (tcp tcp' : TcpConnection) : Prop extends TxFrame tcp tcp' where
  sndSent : tcp'.sndSent = tcp.sndSent ∨ tcp'.sndSent = BitVec.ofNat 32 (tcpTxSeqLen tcp)
  transmitted : ∃ fresh, tcp'.transmitted = tcp.transmitted ++ fresh ∧
    ∀ segment ∈ fresh, SegmentOf tcp segment

theorem transmits_tcpXmitSack (tcp : TcpConnection) (sackSeq : BitVec 32) (env : TcpXmitEnv) :
    Transmits tcp (tcpXmitSack tcp sackSeq env) := by
  obtain ⟨sndSent, timer, rxQueue, rcvWin, sack, ackPending, fresh, heq, -, -, hsent, hfresh⟩ :=
    tcpXmitSack_eq tcp sackSeq env
  rw [heq]
  refine ⟨⟨rfl, rfl, rfl, rfl, rfl, rfl, rfl⟩, hsent, fresh, rfl, fun segment hsegment => ?_⟩
  obtain ⟨hseq, hdata, hfin⟩ := hfresh segment hsegment
  exact ⟨hseq, hdata, hfin⟩

theorem not_canSendData_of_phantom {state : TcpState} (h : phantom state = true) :
    state.canSendData = false := by
  simp only [phantom, TcpState.sending, TcpState.canSendData, Bool.or_eq_true, Bool.and_eq_true,
    Bool.not_eq_true'] at h ⊢
  rcases h with ⟨-, hsyn⟩ | ⟨hfin, -⟩
  · simp [hsyn]
  · simp [hfin]

theorem tcpTxSeqLen_le (tcp : TcpConnection) :
    tcpTxSeqLen tcp ≤ if phantom tcp.state then 1 else tcp.txQueue.flatten.length := by
  have hlen : tcpTxSeqLen tcp = (tcpTxData tcp).length + (phantom tcp.state).toNat := rfl
  rw [hlen, tcpTxData_eq]
  cases hphantom : phantom tcp.state with
  | true => simp [not_canSendData_of_phantom hphantom]
  | false =>
    split
    · simp
    · simp

theorem TxInv.transmits (hinv : TxInv iss stream una tcp) (h : Transmits tcp tcp') :
    TxInv iss stream una tcp' := by
  refine hinv.frame h.toTxFrame fun hdeleted => ?_
  rw [h.phantom_eq, h.txQueue]
  rcases h.sndSent with hsent | hsent <;> rw [hsent]
  · exact hinv.sent (h.deleted ▸ hdeleted)
  · exact (Nat.mod_le _ _).trans (tcpTxSeqLen_le tcp)

theorem TxInv.sends {sender : TcpSender} {segment : TcpTxSegment}
    (hinv : TxInv iss sender.stream sender.una sender.tcp) (h : SegmentOf tcp segment)
    (hframe : TxFrame tcp sender.tcp) : sender.Sends iss segment := by
  have hdata : segment.data ≠ [] →
      sender.tcp.state.acked.syn = true ∧ segment.data <+: sender.tcp.txQueue.flatten := by
    intro hne
    rw [h.data, tcpTxData_eq] at hne ⊢
    split at hne
    · next hcan =>
        rw [if_pos hcan, hframe.acked, hframe.txQueue]
        simp only [TcpState.canSendData, Bool.and_eq_true] at hcan
        exact ⟨hcan.1, take_prefix _ _⟩
    · exact absurd rfl hne
  refine ⟨by rw [h.seq, ← hframe.sndSeq, hinv.counted], ?_, fun hne => hinv.synced (hdata hne).1, ?_⟩
  · by_cases hne : segment.data = []
    · rw [hne]
      exact nil_prefix
    · obtain ⟨hsyn, hbegins⟩ := hdata hne
      have hdeleted : sender.tcp.deleted = false := by
        by_contra hdeleted
        have hgone := (hinv.gone (by simpa using hdeleted)).2.2.1
        rw [hgone] at hsyn
        cases hsyn
      rwa [← hinv.queued hdeleted]
  · intro hfin
    rw [h.fin] at hfin
    refine (hinv.fin ?_).1
    rw [hframe.sentFin]
    exact (Bool.and_eq_true_iff.1 hfin).1

/-! ## Acknowledgements -/

/-- What an acknowledgement does to the transmit side if it acknowledges anything new. -/
structure Acknowledges (tcp : TcpConnection) (ack : BitVec 32) (tcp' : TcpConnection) : Prop where
  sndSeq : tcp'.sndSeq = ack
  sndSent : tcp'.sndSent = 0
  txQueue : tcp'.txQueue = tcpAckedQueue tcp ((ack - tcp.sndSeq).toNat - (phantom tcp.state).toNat)
  xferClosed : tcp'.xferClosed = tcp.xferClosed
  deleted : tcp'.deleted = tcp.deleted
  sentSyn : tcp'.state.sent.syn = tcp.state.sent.syn
  ackedSyn : tcp'.state.acked.syn = (tcp.state.acked.syn || tcp.state.sending.syn)
  fin : tcp'.state.sent.fin = true →
    tcp.state.sent.fin = true ∨ tcp'.txQueue = [] ∧ tcp.xferClosed = true
  unfinished : tcp'.state.sent.fin = false → tcp.state.sent.fin = false
  transmitted : tcp'.transmitted = tcp.transmitted

theorem tcpRxAck_cases (tcp : TcpConnection) (ack win : BitVec 32) :
    acceptedAck tcp ack = 0 ∧ tcpAct tcp (.rxAck ack win) = tcp ∨
    acceptedAck tcp ack = 0 ∧ (∃ keepalive, tcpAct tcp (.rxAck ack win) =
      { tcp with sndWin := win, keepalive := keepalive }) ∨
    0 < acceptedAck tcp ack ∧ acceptedAck tcp ack = (ack - tcp.sndSeq).toNat ∧
      acceptedAck tcp ack ≤ tcp.sndSent.toNat ∧
      Acknowledges tcp ack (tcpAct tcp (.rxAck ack win)) := by
  simp only [tcpAct, tcpRxAck, acceptedAck]
  by_cases hrange : (ack - tcp.sndSeq).toNat > tcp.sndSent.toNat
  · left
    rw [if_neg (by omega)]
    split_ifs <;> exact ⟨rfl, rfl⟩
  rw [if_neg hrange, if_pos (by omega)]
  by_cases hzero : (ack - tcp.sndSeq).toNat = 0
  · right; left
    rw [if_pos hzero]
    exact ⟨hzero, _, rfl⟩
  right; right
  rw [if_neg hzero]
  refine ⟨by omega, rfl, by omega, ?_⟩
  have hlen : (if (tcp.state.sending.syn || tcp.state.sending.fin) = true
      then (ack - tcp.sndSeq).toNat - 1 else (ack - tcp.sndSeq).toNat) =
      (ack - tcp.sndSeq).toNat - (phantom tcp.state).toNat := by
    unfold phantom
    split
    · next h => rw [h]; rfl
    · next h => rw [Bool.eq_false_iff.2 h]; rfl
  simp only [hlen]
  by_cases hfin : (tcpProcessTxQueue tcp.txQueue
      ((ack - tcp.sndSeq).toNat - (phantom tcp.state).toNat)).2.1 = [] ∧
      tcp.xferClosed = true ∧ ¬ tcp.state.sent.fin = true
  · rw [if_pos hfin]
    exact ⟨rfl, rfl, rfl, rfl, rfl, rfl, rfl, fun _ => .inr ⟨hfin.1, hfin.2.1⟩, nofun, rfl⟩
  · rw [if_neg hfin]
    exact ⟨rfl, rfl, rfl, rfl, rfl, rfl, rfl, .inl, id, rfl⟩

theorem TxInv.acknowledges {ack : BitVec 32} (hinv : TxInv iss stream una tcp)
    (h : Acknowledges tcp ack tcp') (hpos : 0 < (ack - tcp.sndSeq).toNat)
    (hsent : (ack - tcp.sndSeq).toNat ≤ tcp.sndSent.toNat) :
    TxInv iss stream (una + (ack - tcp.sndSeq).toNat) tcp' where
  counted := by
    rw [h.sndSeq, ofNat_add, ← add_assoc, ← hinv.counted, ofNat_toNat,
      setWidth_eq, add_comm, sub_add_cancel]
  queued hdeleted := by
    rw [h.deleted] at hdeleted
    have hbound := hinv.sent hdeleted
    rw [h.txQueue, flatten_tcpAckedQueue, hinv.queued hdeleted, drop_drop]
    cases hphantom : phantom tcp.state with
    | true =>
      -- the SYN or the FIN is all that can be acknowledged
      rw [hphantom, if_pos rfl] at hbound
      have hone : (ack - tcp.sndSeq).toNat = 1 := by omega
      rw [hone]
      cases hsyn : tcp.state.acked.syn with
      | false => rw [hinv.unsynced hdeleted hsyn]; rfl
      | true =>
        have hempty : tcp.txQueue = [] := by
          have hsynsent := hinv.sentSyn hdeleted
          simp only [phantom, TcpState.sending, hsyn, hsynsent, Bool.not_true, Bool.and_false,
            Bool.false_or, Bool.and_eq_true] at hphantom
          exact (hinv.fin hphantom.1).1
        have hdrop : stream.drop (una - 1) = [] := by
          rw [← hinv.queued hdeleted, hempty]
          rfl
        have hlen := drop_eq_nil_iff.1 hdrop
        rw [drop_eq_nil_of_le (by omega), drop_eq_nil_of_le (by omega)]
    | false =>
      have hsyn : tcp.state.acked.syn = true := by
        have hsynsent := hinv.sentSyn hdeleted
        simp only [phantom, TcpState.sending, hsynsent, Bool.true_and, Bool.or_eq_false_iff,
          Bool.not_eq_false'] at hphantom
        exact hphantom.1
      have hone := hinv.synced hsyn
      congr 1
      simp only [Bool.toNat_false]
      omega
  within hdeleted hfin := by
    rw [h.deleted] at hdeleted
    have hfin' := h.unfinished hfin
    have hbound := hinv.sent hdeleted
    have hold := hinv.within hdeleted hfin'
    cases hsyn : tcp.state.acked.syn with
    | false =>
      have hphantom : phantom tcp.state = true := by
        simp [phantom, TcpState.sending, hinv.sentSyn hdeleted, hsyn]
      rw [hinv.unsynced hdeleted hsyn]
      rw [if_pos hphantom] at hbound
      omega
    | true =>
      have hphantom : phantom tcp.state = false := by
        simp [phantom, TcpState.sending, hsyn, hfin']
      rw [hphantom, hinv.queued hdeleted, length_drop] at hbound
      simp only [Bool.false_eq_true, if_false] at hbound
      omega
  sent _ := by
    rw [h.sndSent]
    exact Nat.zero_le _
  sentSyn hdeleted := by
    rw [h.deleted] at hdeleted
    rw [h.sentSyn]
    exact hinv.sentSyn hdeleted
  unsynced hdeleted hsyn := by
    rw [h.deleted] at hdeleted
    rw [h.ackedSyn, TcpState.sending, hinv.sentSyn hdeleted] at hsyn
    simp at hsyn
  synced _ := by omega
  fin hfin := by
    rcases h.fin hfin with hold | ⟨hempty, hclosed⟩
    · obtain ⟨hempty, hclosed⟩ := hinv.fin hold
      refine ⟨?_, h.xferClosed ▸ hclosed⟩
      rw [h.txQueue, tcpAckedQueue, hempty]
      rfl
    · exact ⟨hempty, h.xferClosed ▸ hclosed⟩
  gone hdeleted := by
    rw [h.deleted] at hdeleted
    obtain ⟨hempty, hsent, hsyn, hclosed⟩ := hinv.gone hdeleted
    refine ⟨?_, h.sentSyn ▸ hsent, ?_, h.xferClosed ▸ hclosed⟩
    · rw [h.txQueue, tcpAckedQueue, hempty]
      rfl
    · rw [h.ackedSyn, hsyn, TcpState.sending, hsent]
      rfl

/-- **An acknowledgement takes the bytes that it acknowledges off the queue.** -/
theorem TxInv.rxAck (hinv : TxInv iss stream una tcp) (ack win : BitVec 32) :
    TxInv iss stream (una + acceptedAck tcp ack) (tcpAct tcp (.rxAck ack win)) := by
  rcases tcpRxAck_cases tcp ack win with ⟨hzero, heq⟩ | ⟨hzero, keepalive, heq⟩ |
    ⟨hpos, haccepted, hsent, hacks⟩
  · rw [hzero, heq]
    exact hinv
  · rw [hzero, heq]
    exact hinv.frame_sent ⟨rfl, rfl, rfl, rfl, rfl, rfl, rfl⟩ rfl
  · rw [haccepted] at hpos hsent ⊢
    exact hinv.acknowledges hacks hpos hsent

theorem rxAck_keeps (tcp : TcpConnection) (ack win : BitVec 32) :
    (tcpAct tcp (.rxAck ack win)).xferClosed = tcp.xferClosed ∧
      (tcpAct tcp (.rxAck ack win)).transmitted = tcp.transmitted := by
  rcases tcpRxAck_cases tcp ack win with ⟨-, heq⟩ | ⟨-, keepalive, heq⟩ | ⟨-, -, -, hacks⟩
  · rw [heq]
    exact ⟨rfl, rfl⟩
  · rw [heq]
    exact ⟨rfl, rfl⟩
  · exact ⟨hacks.xferClosed, hacks.transmitted⟩

theorem phantom_sendFin {state : TcpState} (h : phantom state = true) :
    phantom state.sendFin = true := by
  simp only [phantom, TcpState.sending, TcpState.sendFin, Bool.or_eq_true, Bool.and_eq_true] at h ⊢
  exact h.imp_right fun hfin => ⟨trivial, hfin.2⟩

theorem TxInv.sendFin (hinv : TxInv iss stream una tcp) (hempty : tcp.txQueue = [])
    (hclosed : tcp.xferClosed = true) (process : Bool) (pendingFlags : ℕ) :
    TxInv iss stream una
      { tcp with state := tcp.state.sendFin, process := process, pendingFlags := pendingFlags } :=
  { hinv with
    sent := fun hdeleted => by
      have hbound := hinv.sent hdeleted
      simp only [hempty, flatten_nil, length_nil] at hbound ⊢
      split at hbound
      · next hold => rwa [if_pos (phantom_sendFin hold)]
      · exact hbound.trans (Nat.zero_le _)
    within := nofun
    fin := fun _ => ⟨hempty, hclosed⟩ }

theorem TxInv.delete (hinv : TxInv iss stream una tcp) (hclosed : tcp.xferClosed = true) :
    TxInv iss stream una (tcpDelete tcp) where
  counted := hinv.counted
  queued hdeleted := by cases hdeleted
  within hdeleted := by cases hdeleted
  sent hdeleted := by cases hdeleted
  sentSyn hdeleted := by cases hdeleted
  unsynced hdeleted := by cases hdeleted
  synced hsyn := by cases hsyn
  fin hfin := by cases hfin
  gone _ := ⟨rfl, rfl, rfl, hclosed⟩

/-- The connection once its SYN has been acknowledged, by the peer or on our own account. -/
def tcpSynAcked (tcp : TcpConnection) : TcpConnection :=
  if tcp.state.acked.syn then tcp else tcpAct tcp (.rxAck (tcp.sndSeq + 1) 0)

theorem tcpCloseSend_eq (tcp : TcpConnection) :
    tcpCloseSend tcp =
      if (tcpSynAcked tcp).txQueue = [] ∧ ¬ (tcpSynAcked tcp).state.sent.fin then
        { tcpSynAcked tcp with
          keepalive := false
          state := (tcpSynAcked tcp).state.sendFin
          process := true
          pendingFlags := (tcpSynAcked tcp).pendingFlags + 1 }
      else { tcpSynAcked tcp with keepalive := false } :=
  rfl

theorem tcpSynAcked_keeps (tcp : TcpConnection) :
    (tcpSynAcked tcp).xferClosed = tcp.xferClosed ∧
      (tcpSynAcked tcp).transmitted = tcp.transmitted := by
  unfold tcpSynAcked
  split
  · exact ⟨rfl, rfl⟩
  · exact rxAck_keeps _ _ _

/-- What is acknowledged on our own account. -/
def synAccepted (tcp : TcpConnection) : ℕ :=
  if tcp.state.acked.syn then 0 else acceptedAck tcp (tcp.sndSeq + 1)

theorem TxInv.synAcked (hinv : TxInv iss stream una tcp) :
    TxInv iss stream (una + synAccepted tcp) (tcpSynAcked tcp) := by
  unfold tcpSynAcked synAccepted
  split
  · exact hinv
  · exact hinv.rxAck _ _

theorem TxInv.closeSend (hinv : TxInv iss stream una tcp) (hclosed : tcp.xferClosed = true) :
    TxInv iss stream (una + synAccepted tcp) (tcpCloseSend tcp) := by
  have hquiet : TxInv iss stream (una + synAccepted tcp)
      { tcpSynAcked tcp with keepalive := false } :=
    hinv.synAcked.frame_sent ⟨rfl, rfl, rfl, rfl, rfl, rfl, rfl⟩ rfl
  rw [tcpCloseSend_eq]
  split
  · next h => exact hquiet.sendFin h.1 ((tcpSynAcked_keeps tcp).1.trans hclosed) true _
  · exact hquiet

theorem accepted_close (tcp : TcpConnection) :
    TcpAction.close.accepted tcp = if tcp.state.rcvd.syn then synAccepted tcp else 0 := by
  simp only [TcpAction.accepted, synAccepted]
  cases tcp.state.rcvd.syn <;> cases tcp.state.acked.syn <;> rfl

theorem TxInv.close (hinv : TxInv iss stream una tcp) :
    TxInv iss stream (una + TcpAction.close.accepted tcp) (tcpClose tcp) := by
  have hshut : TxInv iss stream una { tcp with xferClosed := true } :=
    { hinv with
      fin := fun hfin => ⟨(hinv.fin hfin).1, rfl⟩
      gone := fun hdeleted => by
        obtain ⟨hempty, hsent, hsyn, -⟩ := hinv.gone hdeleted
        exact ⟨hempty, hsent, hsyn, rfl⟩ }
  rw [accepted_close]
  unfold tcpClose
  by_cases hrcvd : tcp.state.rcvd.syn = true
  · simp only [hrcvd, if_true]
    exact hshut.closeSend rfl
  · simp only [hrcvd, Bool.false_eq_true, if_false]
    exact hshut.delete rfl

theorem transmitted_tcpClose (tcp : TcpConnection) :
    (tcpClose tcp).transmitted = tcp.transmitted := by
  unfold tcpClose
  simp only
  split
  · rw [tcpCloseSend_eq]
    split <;> exact (tcpSynAcked_keeps _).2
  · rfl

theorem TxInv.abort (hinv : TxInv iss stream una tcp) :
    TxInv iss stream una (tcpClose { tcp with state := .closed }) := by
  exact ⟨hinv.counted, nofun, nofun, nofun, nofun, nofun, nofun, nofun, fun _ => ⟨rfl, rfl, rfl, rfl⟩⟩

theorem TxInv.deliver (hinv : TxInv iss stream una tcp) (hopen : tcp.xferClosed = false)
    (data : Bytes) (pendingData : ℕ) :
    TxInv iss (stream ++ data) una
      { tcp with txQueue := tcp.txQueue ++ [data], pendingData := pendingData } where
  counted := hinv.counted
  queued hdeleted := by
    have hwithin := hinv.within hdeleted (by
      by_contra hfin
      rw [(hinv.fin (by simpa using hfin)).2] at hopen
      cases hopen)
    rw [flatten_append, hinv.queued hdeleted, drop_append_of_le_length hwithin]
    simp
  within hdeleted hfin := by
    rw [length_append]
    exact Nat.le_add_right_of_le (hinv.within hdeleted hfin)
  sent hdeleted := by
    have hbound := hinv.sent hdeleted
    split at hbound
    · next hphantom => rwa [if_pos hphantom]
    · next hphantom =>
        rw [if_neg hphantom, flatten_append, length_append]
        exact Nat.le_add_right_of_le hbound
  sentSyn := hinv.sentSyn
  unsynced := hinv.unsynced
  synced := hinv.synced
  fin hfin := by
    rw [(hinv.fin hfin).2] at hopen
    cases hopen
  gone hdeleted := by
    rw [(hinv.gone hdeleted).2.2.2] at hopen
    cases hopen

theorem TxInv.receive (hinv : TxInv iss stream una tcp) (side : TcpRxSide) :
    TxInv iss stream una (withRxSide tcp side) :=
  hinv.frame_sent ⟨rfl, rfl, rfl, rfl, rfl, rfl, rfl⟩ rfl

/-- All that was transmitted since is of the stream. -/
def Grows (iss : BitVec 32) (sender next : TcpSender) : Prop :=
  ∃ fresh, next.tcp.transmitted = sender.tcp.transmitted ++ fresh ∧
    ∀ segment ∈ fresh, next.Sends iss segment

theorem Grows.of_eq {sender next : TcpSender}
    (h : next.tcp.transmitted = sender.tcp.transmitted) : Grows iss sender next :=
  ⟨[], by rw [h, append_nil], nofun⟩

theorem TxInv.grows {sender next : TcpSender} (hinv : TxInv iss next.stream next.una tcp)
    (h : Transmits tcp next.tcp) (hold : tcp.transmitted = sender.tcp.transmitted) :
    TxInv iss next.stream next.una next.tcp ∧ Grows iss sender next := by
  have hnext := hinv.transmits h
  obtain ⟨fresh, hfresh, hcarries⟩ := h.transmitted
  exact ⟨hnext, fresh, hold ▸ hfresh, fun segment hsegment =>
    hnext.sends (hcarries segment hsegment) h.toTxFrame⟩

theorem txInv_senderStep (sender : TcpSender) (action : TcpAction)
    (hinv : TxInv iss sender.stream sender.una sender.tcp) :
    TxInv iss (senderStep sender action).stream (senderStep sender action).una
        (senderStep sender action).tcp ∧
      Grows iss sender (senderStep sender action) := by
  have hsame : TxInv iss (sender.stream ++ []) sender.una sender.tcp := by
    rwa [append_nil]
  cases action with
  | xferDeliver data env =>
    cases hclosed : sender.tcp.xferClosed with
    | true =>
      simp only [senderStep, tcpAct, TcpAction.taken, hclosed, if_true]
      exact ⟨hsame, .of_eq rfl⟩
    | false =>
      have hstep : senderStep sender (.xferDeliver data env) =
          ⟨tcpXmit { sender.tcp with
            txQueue := sender.tcp.txQueue ++ [data]
            pendingData := sender.tcp.pendingData + 1 } env,
          sender.stream ++ data, sender.una⟩ := by
        simp [senderStep, tcpAct, TcpAction.taken, TcpAction.accepted, hclosed]
      rw [hstep]
      exact TxInv.grows (hinv.deliver hclosed data _) (transmits_tcpXmitSack _ _ env) rfl
  | close =>
    refine ⟨?_, .of_eq (transmitted_tcpClose _)⟩
    simpa only [senderStep, tcpAct, TcpAction.taken, append_nil] using hinv.close
  | abort => exact ⟨hsame.abort, .of_eq rfl⟩
  | xmitSack sackSeq env => exact TxInv.grows hsame (transmits_tcpXmitSack _ sackSeq env) rfl
  | expired fail env =>
    have hstopped : TxInv iss (sender.stream ++ []) sender.una { sender.tcp with timer := false } :=
      hsame.frame_sent ⟨rfl, rfl, rfl, rfl, rfl, rfl, rfl⟩ rfl
    cases fail with
    | true => exact ⟨hstopped.abort, .of_eq rfl⟩
    | false => exact TxInv.grows hstopped (transmits_tcpXmitSack _ _ env) rfl
  | rxAck ack win =>
    refine ⟨?_, .of_eq (rxAck_keeps _ _ _).2⟩
    simpa only [senderStep, TcpAction.taken, TcpAction.accepted, append_nil] using
      hinv.rxAck ack win
  | receive side => exact ⟨hsame.receive side, .of_eq rfl⟩

theorem txInv_tcpOpen (localPort mtu : ℕ) : TxInv iss [] 0 (tcpOpen localPort mtu iss) where
  counted := by simp [tcpOpen]
  queued _ := rfl
  within _ _ := Nat.zero_le _
  sent _ := Nat.zero_le _
  sentSyn _ := rfl
  unsynced _ _ := rfl
  synced h := by cases h
  fin h := by cases h
  gone h := by cases h

end

/-- **TCP transmit correctness.**  After any actions, `snd_seq` has advanced by what has been
acknowledged, and the transmit queue, if the connection still exists, holds the bytes from there
on.  What any further action transmits carries the stream at its sequence number, and a FIN only
if nothing is left in the queue.
[net/tcp.c:349-445,568-762,1115-1188] -/
theorem tcp_transmit_correct (localPort mtu : ℕ) (iss : BitVec 32) (actions : List TcpAction)
    (action : TcpAction) :
    let sender := run senderStep ⟨tcpOpen localPort mtu iss, [], 0⟩ actions
    let next := senderStep sender action
    sender.tcp.sndSeq = iss + BitVec.ofNat 32 sender.una ∧
    next.tcp.sndSeq = sender.tcp.sndSeq + BitVec.ofNat 32 (action.accepted sender.tcp) ∧
    (sender.tcp.deleted = false →
      sender.tcp.txQueue.flatten = sender.stream.drop (sender.una - 1)) ∧
    ∃ fresh, next.tcp.transmitted = sender.tcp.transmitted ++ fresh ∧
      ∀ segment ∈ fresh, next.Sends iss segment := by
  intro sender next
  have hinv : TxInv iss sender.stream sender.una sender.tcp :=
    run_keeps (fun s a hs => (txInv_senderStep s a hs).1) (txInv_tcpOpen localPort mtu) actions
  obtain ⟨hnext, hgrows⟩ := txInv_senderStep sender action hinv
  refine ⟨hinv.counted, ?_, hinv.queued, hgrows⟩
  have hcounted : next.tcp.sndSeq =
      iss + BitVec.ofNat 32 (sender.una + action.accepted sender.tcp) := hnext.counted
  rw [hcounted, hinv.counted, ofNat_add, add_assoc]

/-! ## Events are made of actions -/

/-- One connection comes from another by actions, which take `bytes` from the application. -/
def Acts (bytes : Bytes) (tcp' : TcpConnection) : Prop :=
  ∃ actions, ∀ stream una, ∃ una',
    run senderStep ⟨tcp, stream, una⟩ actions = ⟨tcp', stream ++ bytes, una'⟩

theorem Acts.refl : Acts tcp [] tcp :=
  ⟨[], fun stream una => ⟨una, by rw [append_nil]; rfl⟩⟩

theorem Acts.one (action : TcpAction) : Acts tcp (action.taken tcp) (tcpAct tcp action) :=
  ⟨[action], fun _ _ => ⟨_, rfl⟩⟩

theorem Acts.append {tcp₁ tcp₂ tcp₃ : TcpConnection} {bytes bytes' : Bytes}
    (h₁ : Acts tcp₁ bytes tcp₂) (h₂ : Acts tcp₂ bytes' tcp₃) : Acts tcp₁ (bytes ++ bytes') tcp₃ := by
  obtain ⟨first, hfirst⟩ := h₁
  obtain ⟨second, hsecond⟩ := h₂
  refine ⟨first ++ second, fun stream una => ?_⟩
  obtain ⟨una₂, hrun⟩ := hfirst stream una
  rw [run_append, hrun, ← List.append_assoc]
  exact hsecond _ una₂

theorem Acts.trans {tcp₁ tcp₂ tcp₃ : TcpConnection} {bytes : Bytes} (h₁ : Acts tcp₁ [] tcp₂)
    (h₂ : Acts tcp₂ bytes tcp₃) : Acts tcp₁ bytes tcp₃ :=
  h₁.append h₂

theorem Acts.receive {tcp tcp' : TcpConnection} (h : withRxSide tcp (rxSide tcp') = tcp') :
    Acts tcp [] tcp' := by
  have hone := Acts.one tcp (.receive (rxSide tcp'))
  rwa [tcpAct, h] at hone

theorem Acts.ite {tcp tcp' : TcpConnection} {p : Prop} [Decidable p] (h : Acts tcp [] tcp') :
    Acts tcp [] (if p then tcp' else tcp) := by
  split
  · exact h
  · exact .refl tcp

section

variable (tcp : TcpConnection) (seq : BitVec 32)

theorem acts_tcpRxSyn (options : TcpOptions) : Acts tcp [] (tcpRxSyn tcp seq options) := by
  unfold tcpRxSyn
  simp only
  split <;> split <;> exact .receive rfl

theorem acts_tcpRxData (data : Bytes) (discards : ℕ) :
    Acts tcp [] (tcpRxData tcp seq data discards) := by
  have hdiscards (tcp : TcpConnection) : Acts tcp [] (tcpDiscards discards tcp) := by
    obtain ⟨rxQueue, hrest, -⟩ := tcpDiscards_eq discards tcp
    exact hrest ▸ .receive rfl
  unfold tcpRxData tcpDeliver
  simp only
  split
  · exact .refl tcp
  · refine Acts.trans ?_ (hdiscards _)
    exact .receive rfl

theorem acts_tcpRxFin : Acts tcp [] (tcpRxFin tcp seq) := by
  unfold tcpRxFin
  split
  · exact .refl tcp
  · refine Acts.trans ?_ (.one _ .close)
    exact .receive rfl

theorem acts_tcpProcessRxQueue (discards : List ℕ) :
    Acts tcp [] (tcpProcessRxQueue tcp discards) := by
  fun_induction tcpProcessRxQueue tcp discards with
  | case1 => exact .refl _
  | case2 => exact .refl _
  | case3 tcp discards queued queue hqueue hgap ih =>
    have hrest : Acts tcp [] { tcp with rxQueue := queue } := .receive rfl
    have hdata := hrest.trans (acts_tcpRxData _ queued.seq queued.data (discards.headD 0))
    refine Acts.trans ?_ ih
    unfold tcpProcessQueued
    split
    · exact hdata.trans (acts_tcpRxFin _ _)
    · exact hdata

theorem acts_tcpRxContent (segment : TcpSegment) (env : TcpRxEnv) :
    Acts tcp [] (tcpRxContent tcp seq segment env) := by
  have henqueue : Acts tcp [] (tcpRxEnqueue tcp seq segment.flags.fin segment.data) := by
    unfold tcpRxEnqueue
    simp only
    split <;> exact .receive rfl
  have hqueue := henqueue.trans (acts_tcpProcessRxQueue _ env.discards)
  have hwait (tcp : TcpConnection) : Acts tcp []
      (if tcp.state.closedGracefully then { tcp with wait := true } else tcp) :=
    .ite (.receive rfl)
  refine Acts.trans ?_ (hwait _)
  split
  · exact hqueue.trans (.receive rfl)
  · exact hqueue.trans (.one _ (.xmitSack seq env.xmit))

theorem acts_tcpRxSegment (segment : TcpSegment) (env : TcpRxEnv) :
    Acts tcp [] (tcpRxSegment tcp segment env).1 := by
  have hstart : Acts tcp [] { tcp with tsVal := segment.options.tsopt.getD tcp.tsVal } := .receive rfl
  unfold tcpRxSegment
  simp only
  split
  · exact hstart
  next tcp₁ hack =>
    have hacked : Acts tcp [] tcp₁ := by
      refine hstart.trans ?_
      split at hack
      · have hone := Acts.one { tcp with tsVal := segment.options.tsopt.getD tcp.tsVal }
          (.rxAck segment.ack (BitVec.ofNat 32 segment.rawWin <<< (tcp.sndWinScale % 32)))
        rwa [tcpAct, hack] at hone
      · cases hack
        exact .refl _
    generalize hforce : ite (tcp₁.state.rcvd.syn ∧ segment.seq ≠ tcp₁.rcvAck) _ tcp₁ = tcp₂
    have hforced : Acts tcp [] tcp₂ := hforce ▸ hacked.trans (.ite (.receive rfl))
    have hsyn : Acts tcp []
        (if segment.flags.syn then tcpRxSyn tcp₂ segment.seq segment.options else tcp₂) :=
      hforced.trans (.ite (acts_tcpRxSyn _ _ _))
    split
    · next tcp₃ hrst =>
        refine hsyn.trans ?_
        split at hrst
        · exact tcpRxRst_eq_abort hrst ▸ .one _ .abort
        · cases hrst
    · exact hsyn.trans (acts_tcpRxContent _ _ _ _)

/-- The bytes that an event takes from the application. -/
def TcpEvent.taken : TcpEvent → Bytes
  | .xferDeliver data _ => if tcp.deleted ∨ tcp.xferClosed then [] else data
  | _ => []

/-- **The events in the life of a connection are made of actions.** -/
theorem acts_tcpStep (event : TcpEvent) :
    Acts tcp (TcpEvent.taken tcp event) (tcpStep tcp event) := by
  have hxmit {tcp' : TcpConnection} (h : Acts tcp [] tcp') (env : TcpXmitEnv) :
      Acts tcp [] (tcpXmit tcp' env) :=
    h.trans (.one tcp' (.xmitSack tcp'.rcvAck env))
  unfold tcpStep
  split
  · next hdeleted =>
      have hnothing : TcpEvent.taken tcp event = [] := by cases event <;> simp [TcpEvent.taken, hdeleted]
      exact hnothing ▸ .refl tcp
  next hlive =>
  cases event with
  | rx pshdrCsum packet env =>
    simp only [tcpRx]
    split
    · exact .refl tcp
    · split
      · exact .refl tcp
      · exact acts_tcpRxSegment _ _ _
  | discard => exact .receive rfl
  | process env => exact .ite (hxmit (.receive rfl) env)
  | expired fail env => exact .ite (.one tcp (.expired fail env))
  | keepaliveExpired env => exact .ite (hxmit (.receive rfl) env)
  | waitExpired =>
    have hwait : Acts tcp [] { tcp with wait := false } := .receive rfl
    exact .ite (hwait.trans (.one _ .abort))
  | xferDeliver data env =>
    have hone := Acts.one tcp (.xferDeliver data env)
    simpa [TcpAction.taken, tcpAct, TcpEvent.taken, hlive] using hone
  | xferClose env =>
    simp only
    split
    · exact .refl tcp
    · exact hxmit (.one tcp .close) env

/-- The bytes that are taken from the application in a run. -/
def takenIn (tcp : TcpConnection) : List TcpEvent → Bytes
  | [] => []
  | event :: events => TcpEvent.taken tcp event ++ takenIn (tcpStep tcp event) events

theorem acts_run (events : List TcpEvent) :
    Acts tcp (takenIn tcp events) (run tcpStep tcp events) := by
  induction events generalizing tcp with
  | nil => exact .refl tcp
  | cons event events ih => exact (acts_tcpStep tcp event).append (ih _)

end

/-- A segment whose data is in the stream where its sequence number says. -/
def OfStream (iss : BitVec 32) (stream : Bytes) (segment : TcpTxSegment) : Prop :=
  ∃ offset, segment.data <+: stream.drop offset ∧
    (segment.data ≠ [] → segment.seq = iss + 1 + BitVec.ofNat 32 offset)

/-- The transmit side in order, now and in all that it has transmitted. -/
def TxHistory (iss : BitVec 32) (sender : TcpSender) : Prop :=
  TxInv iss sender.stream sender.una sender.tcp ∧
    ∀ segment ∈ sender.tcp.transmitted, OfStream iss sender.stream segment

theorem txHistory_senderStep {iss : BitVec 32} (sender : TcpSender) (action : TcpAction)
    (h : TxHistory iss sender) : TxHistory iss (senderStep sender action) := by
  obtain ⟨hnext, fresh, hfresh, hsends⟩ := txInv_senderStep sender action h.1
  refine ⟨hnext, fun segment hmem => ?_⟩
  rw [hfresh] at hmem
  rcases mem_append.1 hmem with hold | hnew
  · obtain ⟨offset, hdata, hseq⟩ := h.2 segment hold
    exact ⟨offset, hdata.trans ((prefix_append _ _).drop offset), hseq⟩
  · have hsent := hsends segment hnew
    refine ⟨_, hsent.data, fun hne => ?_⟩
    have hcount := Nat.add_sub_of_le (hsent.synced hne)
    rw [hsent.seq, add_assoc, ← hcount, ofNat_add, Nat.add_sub_cancel_left]
    rfl

end Ipxe.Analysis
