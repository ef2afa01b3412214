import Ipxe.Interface.TcpStream
import Ipxe.Analysis.TcpSteps

/-!
# TCP hands the peer's stream to the application

As long as the segments received are the peer's (`PeerEvent`), the bytes handed to the application
are an initial part of the peer's stream and `rcv_ack` counts them (`RxInv`).
-/

namespace Ipxe.Analysis

open Library Model Interface List

/-- The receive side of a connection is that of a receiver of `stream`. -/
structure RxInv (stream : PeerStream) (tcp : TcpConnection) : Prop where
  /-- the bytes handed over are an initial part of the stream -/
  inOrder : tcp.delivered <+: stream.bytes
  /-- once a SYN has been received, `rcv_ack` counts them, and the FIN -/
  counted : tcp.state.rcvd.syn = true →
    tcp.rcvAck = stream.seqAt (tcp.delivered.length + tcp.state.rcvd.fin.toNat)
  /-- the FIN is received only after the whole stream -/
  complete : tcp.state.rcvd.fin = true → tcp.delivered = stream.bytes
  /-- queued packets are slices of the stream -/
  queued : ∀ packet ∈ tcp.rxQueue, stream.Slice packet.seq packet.data packet.fin
  /-- before the SYN nothing is queued, handed over or finished -/
  unsynced : tcp.state.rcvd.syn = false →
    tcp.rxQueue = [] ∧ (tcp.deleted = false → tcp.delivered = [] ∧ tcp.state.rcvd.fin = false)
  /-- the interface is closed only by the FIN or with the connection -/
  opened : tcp.xferClosed = true → tcp.state.rcvd.fin = true ∨ tcp.deleted = true
  /-- a deleted connection has forgotten its SYN -/
  forgotten : tcp.deleted = true → tcp.state.rcvd.syn = false

/-- The receive side is unchanged, except that queued packets may be missing. -/
structure RxFrame (tcp tcp' : TcpConnection) : Prop where
  rcvAck : tcp'.rcvAck = tcp.rcvAck
  rcvd : tcp'.state.rcvd = tcp.state.rcvd
  delivered : tcp'.delivered = tcp.delivered
  xferClosed : tcp'.xferClosed = tcp.xferClosed
  deleted : tcp'.deleted = tcp.deleted
  rxQueue : tcp'.rxQueue <+: tcp.rxQueue
  /-- the receive window stays within `TCP_MAX_WINDOW_SIZE` -/
  window : tcp.rcvWin.toNat ≤ 2048 * 1024 → tcp'.rcvWin.toNat ≤ 2048 * 1024

theorem RxFrame.trans {tcp₁ tcp₂ tcp₃ : TcpConnection} (h₁ : RxFrame tcp₁ tcp₂)
    (h₂ : RxFrame tcp₂ tcp₃) : RxFrame tcp₁ tcp₃ where
  rcvAck := h₂.rcvAck.trans h₁.rcvAck
  rcvd := h₂.rcvd.trans h₁.rcvd
  delivered := h₂.delivered.trans h₁.delivered
  xferClosed := h₂.xferClosed.trans h₁.xferClosed
  deleted := h₂.deleted.trans h₁.deleted
  rxQueue := h₂.rxQueue.trans h₁.rxQueue
  window := h₂.window ∘ h₁.window

theorem RxInv.frame {stream : PeerStream} {tcp tcp' : TcpConnection} (hinv : RxInv stream tcp)
    (h : RxFrame tcp tcp') : RxInv stream tcp' where
  inOrder := by rw [h.delivered]; exact hinv.inOrder
  counted := by rw [h.rcvd, h.rcvAck, h.delivered]; exact hinv.counted
  complete := by rw [h.rcvd, h.delivered]; exact hinv.complete
  queued := fun packet hmem => hinv.queued packet (h.rxQueue.subset hmem)
  unsynced := by
    rw [h.rcvd, h.delivered, h.deleted]
    intro hsyn
    obtain ⟨hq, hrest⟩ := hinv.unsynced hsyn
    exact ⟨prefix_nil.1 (hq ▸ h.rxQueue), hrest⟩
  opened := by rw [h.xferClosed, h.rcvd, h.deleted]; exact hinv.opened
  forgotten := by rw [h.deleted, h.rcvd]; exact hinv.forgotten

theorem rxFrame_tcpDiscards (n : ℕ) (tcp : TcpConnection) : RxFrame tcp (tcpDiscards n tcp) := by
  obtain ⟨rxQueue, heq, hqueue⟩ := tcpDiscards_eq n tcp
  rw [heq]
  exact ⟨rfl, rfl, rfl, rfl, rfl, hqueue, id⟩

/-- **A transmission leaves the receive side alone**, up to the packets that
the allocation of its buffer discards. -/
theorem rxFrame_tcpXmitSack (tcp : TcpConnection) (sackSeq : BitVec 32) (env : TcpXmitEnv) :
    RxFrame tcp (tcpXmitSack tcp sackSeq env) := by
  obtain ⟨sndSent, timer, rxQueue, rcvWin, sack, ackPending, fresh, heq, hqueue, hwindow, -⟩ :=
    tcpXmitSack_eq tcp sackSeq env
  rw [heq]
  exact ⟨rfl, rfl, rfl, rfl, rfl, hqueue, hwindow⟩

theorem rxFrame_tcpRxAck {tcp tcp' : TcpConnection} {ack win : BitVec 32}
    (h : tcpRxAck tcp ack win = .ok tcp') : RxFrame tcp tcp' := by
  unfold tcpRxAck at h
  simp only at h
  split_ifs at h <;> cases h <;> exact ⟨rfl, rfl, rfl, rfl, rfl, prefix_refl _, id⟩

theorem rxFrame_of_prepares {tcp tcp' : TcpConnection} (h : Prepares tcp tcp') : RxFrame tcp tcp' := by
  obtain ⟨_, _, _, _, _, _, rfl⟩ := h
  exact ⟨rfl, rfl, rfl, rfl, rfl, prefix_refl _, id⟩

theorem rxFrame_of_hears {tcp tcp' : TcpConnection} {segment : TcpSegment}
    (h : Hears tcp segment tcp') : RxFrame tcp tcp' := by
  cases h with
  | unacked hp => exact rxFrame_of_prepares hp
  | acked hbefore hflag hack hafter =>
    exact ((rxFrame_of_prepares hbefore).trans (rxFrame_tcpRxAck hack)).trans
      (rxFrame_of_prepares hafter)

/-- **What an event does to the receive side.**  It is framed, dropped with the
connection, closed by the application, or takes in the content of a segment. -/
theorem rx_tcpStep {inv : TcpConnection → Prop} {tcp : TcpConnection} {event : TcpEvent}
    (hframe : ∀ {tcp tcp'}, inv tcp → RxFrame tcp tcp' → inv tcp') (h : inv tcp)
    (habort : inv (tcpClose { tcp with state := .closed }))
    (hclose : (∃ env, event = .xferClose env) → inv (tcpClose tcp))
    (hrx : ∀ pshdrCsum packet env segment tcp₁, event = .rx pshdrCsum packet env →
      tcpParse pshdrCsum packet = .ok segment → segment.dest = tcp.localPort →
      RxFrame tcp tcp₁ →
      inv (tcpClose { tcpHeardSyn tcp₁ segment with state := .closed }) ∧
      inv (tcpProcessRxQueue (tcpRxEnqueue (tcpHeardSyn tcp₁ segment) (contentSeq segment)
        segment.flags.fin segment.data) env.discards)) : inv (tcpStep tcp event) := by
  have hstep := tcpStepOf_tcpStep tcp event
  generalize tcpStep tcp event = tcp' at hstep
  cases hstep with
  | prepare hp => exact hframe h (rxFrame_of_prepares hp)
  | discard => exact hframe h (rxFrame_tcpDiscards 1 tcp)
  | xmit hp env =>
    exact hframe h ((rxFrame_of_prepares hp).trans (rxFrame_tcpXmitSack _ _ env))
  | expired env =>
    have hstopped : RxFrame tcp { tcp with timer := false } :=
      ⟨rfl, rfl, rfl, rfl, rfl, prefix_refl _, id⟩
    exact hframe h (hstopped.trans (rxFrame_tcpXmitSack _ _ env))
  | abort => exact habort
  | close env => exact hframe (hclose ⟨env, rfl⟩) (rxFrame_tcpXmitSack _ _ env)
  | reset hparse hport hheard =>
    exact (hrx _ _ _ _ _ rfl hparse hport (rxFrame_of_hears hheard)).1
  | receive hparse hport hheard =>
    have hqueue := (hrx _ _ _ _ _ rfl hparse hport (rxFrame_of_hears hheard)).2
    rcases tcpRxContent_prepares _ _ _ _ with hp | hp
    · exact hframe hqueue (rxFrame_of_prepares hp)
    · exact hframe hqueue ((rxFrame_tcpXmitSack _ _ _).trans (rxFrame_of_prepares hp))

theorem rxFrame_tcpCloseSend (tcp : TcpConnection) : RxFrame tcp (tcpCloseSend tcp) := by
  have hfinish (tcp : TcpConnection) : RxFrame tcp
      (if tcp.txQueue = [] ∧ ¬ tcp.state.sent.fin then
        { tcp with
          keepalive := false, state := tcp.state.sendFin, process := true
          pendingFlags := tcp.pendingFlags + 1 }
      else { tcp with keepalive := false }) := by
    split <;> exact ⟨rfl, rfl, rfl, rfl, rfl, prefix_refl _, id⟩
  unfold tcpCloseSend
  simp only
  split
  · exact hfinish tcp
  · cases hack : tcpRxAck tcp (tcp.sndSeq + 1) 0 with
    | error rc => exact hfinish tcp
    | ok tcp' => exact (rxFrame_tcpRxAck hack).trans (hfinish tcp')

section

variable {stream : PeerStream}

theorem seqAt_add (m n : ℕ) : stream.seqAt m + BitVec.ofNat 32 n = stream.seqAt (m + n) := by
  rw [PeerStream.seqAt, serialAt_add]
  congr 1
  omega

/-- **Comparison with `rcv_ack` is exact** for offsets inside the stream. -/
theorem tcpCmp_seqAt {m n : ℕ} (hm : m ≤ stream.bytes.length) (hn : n ≤ stream.bytes.length + 1) :
    tcpCmp (stream.seqAt m) (stream.seqAt n) = m - n := by
  have hshort := stream.short
  rw [tcpCmp, PeerStream.seqAt, PeerStream.seqAt, serialCmp_serialAt]
  · omega
  · omega
  · omega

theorem seqAt_inj {m n : ℕ} (hm : m ≤ stream.bytes.length + 1) (hn : n ≤ stream.bytes.length + 1) :
    stream.seqAt m = stream.seqAt n ↔ m = n := by
  have hshort := stream.short
  rw [PeerStream.seqAt, PeerStream.seqAt, serialAt_inj] <;> omega

/-- No sequence number that `rcv_ack` can reach is the initial one again. -/
theorem seqAt_ne_isn {n : ℕ} (hn : n ≤ stream.bytes.length + 1) : stream.seqAt n ≠ stream.isn := by
  have hshort := stream.short
  intro h
  have hzero : serialAt stream.isn (n + 1) = serialAt stream.isn 0 := by
    rw [← PeerStream.seqAt, h, serialAt]
    simp
  rw [serialAt_inj _ (by omega) (by omega)] at hzero
  omega

/-- An initial part followed by the new part of an overlapping slice. -/
theorem take_append_drop_slice {bytes data : Bytes} {n offset : ℕ} (hoff : offset ≤ n)
    (hnew : n ≤ offset + data.length) (hdata : data = (bytes.drop offset).take data.length) :
    bytes.take n ++ data.drop (n - offset) = bytes.take (offset + data.length) := by
  obtain ⟨k, hk⟩ : ∃ k, offset + data.length = n + k := ⟨offset + data.length - n, by omega⟩
  rw [hk, take_add]
  congr 1
  rw [hdata, drop_take, drop_drop]
  congr 1
  · omega
  · congr 1
    omega

/-! ## What changes the receive side -/

variable {tcp : TcpConnection}

/-- The offset that `rcv_ack` stands for. -/
def rcvOffset (tcp : TcpConnection) : ℕ := tcp.delivered.length + tcp.state.rcvd.fin.toNat

theorem RxInv.rcvOffset_le (hinv : RxInv stream tcp) : rcvOffset tcp ≤ stream.bytes.length + 1 := by
  have hle := hinv.inOrder.length_le
  have hfin := tcp.state.rcvd.fin.toNat_le
  unfold rcvOffset
  omega

theorem RxInv.unfinished (hinv : RxInv stream tcp) (h : rcvOffset tcp ≤ stream.bytes.length) :
    tcp.state.rcvd.fin = false := by
  by_contra hfin
  rw [Bool.not_eq_false] at hfin
  rw [rcvOffset, hfin, hinv.complete hfin, Bool.toNat_true] at h
  omega

/-- **The SYN** sets `rcv_ack` to the start of the stream; a repeated SYN is
ignored. -/
theorem rxInv_tcpRxSyn (hinv : RxInv stream tcp) (hdel : tcp.deleted = false)
    (options : TcpOptions) : RxInv stream (tcpRxSyn tcp stream.isn options) := by
  unfold tcpRxSyn
  cases hsyn : tcp.state.rcvd.syn with
  | true =>
    have hack := hinv.counted hsyn
    have hne : stream.isn ≠ tcp.rcvAck := by
      rw [hack]
      exact (seqAt_ne_isn hinv.rcvOffset_le).symm
    simpa [hne] using hinv
  | false =>
    obtain ⟨hqueue, hrest⟩ := hinv.unsynced hsyn
    obtain ⟨hnil, hfin⟩ := hrest hdel
    have hfirst : stream.isn + 1 = stream.seqAt 0 := rfl
    simp only [Bool.false_eq_true, if_false, tcpSynchronise, ne_eq, tcpRxSeq]
    exact
      { inOrder := hinv.inOrder
        counted := fun _ => by simpa [hnil, hfin] using hfirst
        complete := hinv.complete
        queued := hinv.queued
        unsynced := fun h => by simp at h
        opened := hinv.opened
        forgotten := fun h => by simp [hdel] at h }

/-- **Data**, once its sequence number has been found not to lie ahead of
`rcv_ack`, extends the bytes handed over by the part that is new. -/
theorem rxInv_tcpRxData (hinv : RxInv stream tcp) (hsyn : tcp.state.rcvd.syn = true)
    {seq : BitVec 32} {data : Bytes} {fin : Bool} (hslice : stream.Slice seq data fin)
    (hcmp : tcpCmp seq tcp.rcvAck ≤ 0) (discards : ℕ) :
    RxInv stream (tcpRxData tcp seq data discards) := by
  obtain ⟨offset, rfl, hle, hdata, -⟩ := hslice
  have hshort := stream.short
  have hack : tcp.rcvAck = stream.seqAt (rcvOffset tcp) := hinv.counted hsyn
  have hrange := hinv.rcvOffset_le
  have hoff : offset ≤ rcvOffset tcp := by
    rw [hack, tcpCmp_seqAt (by omega) hrange] at hcmp
    omega
  have halready : (tcp.rcvAck - stream.seqAt offset).toNat = rcvOffset tcp - offset := by
    rw [hack, PeerStream.seqAt, PeerStream.seqAt, toNat_serialAt_sub] <;> omega
  unfold tcpRxData
  simp only [halready]
  split
  · exact hinv
  rename_i hnew
  -- there is new data, so the stream is not finished and the interface still open
  have hfin := hinv.unfinished (by omega)
  have hopen : tcp.xferClosed = false := by
    by_contra hclosed
    simp only [Bool.not_eq_false] at hclosed
    rcases hinv.opened hclosed with h | h
    · simp [hfin] at h
    · simp [hinv.forgotten h] at hsyn
  have hcount : rcvOffset tcp = tcp.delivered.length := by simp [rcvOffset, hfin]
  rw [hcount] at hoff hnew hack ⊢
  have hdelivered : tcp.delivered ++ data.drop (tcp.delivered.length - offset) =
      stream.bytes.take (offset + data.length) := by
    conv_lhs => rw [prefix_iff_eq_take.1 hinv.inOrder]
    rw [length_take, min_eq_left hinv.inOrder.length_le]
    exact take_append_drop_slice hoff (by omega) hdata
  refine RxInv.frame ?_ (rxFrame_tcpDiscards discards _)
  simp only [tcpRxSeq, hopen, Bool.false_eq_true, if_false, hdelivered]
  exact
    { inOrder := take_prefix _ _
      counted := fun _ => by
        simp only [hfin, Bool.toNat_false, length_take, length_drop, hack, seqAt_add]
        congr 1
        omega
      complete := fun h => by simp [hfin] at h
      queued := hinv.queued
      unsynced := fun h => by simp [hsyn] at h
      opened := fun h => by simp at h
      forgotten := hinv.forgotten }

/-- Deleting a connection keeps what has been handed over. -/
theorem rxInv_tcpDelete (h : tcp.delivered <+: stream.bytes) : RxInv stream (tcpDelete tcp) where
  inOrder := h
  counted := fun h => by simp [tcpDelete, TcpState.closed] at h
  complete := fun h => by simp [tcpDelete, TcpState.closed] at h
  queued := by simp [tcpDelete]
  unsynced := fun _ => by simp [tcpDelete]
  opened := fun _ => .inr rfl
  forgotten := fun _ => rfl

/-- Aborting a connection keeps what has been handed over. -/
theorem rxInv_abort (hinv : RxInv stream tcp) :
    RxInv stream (tcpClose { tcp with state := .closed }) := by
  exact rxInv_tcpDelete hinv.inOrder

/-- **The FIN** is accepted only behind the last byte of the stream; it is
counted, and closes the interface. -/
theorem rxInv_tcpRxFin (hinv : RxInv stream tcp) (hsyn : tcp.state.rcvd.syn = true) :
    RxInv stream (tcpRxFin tcp (stream.seqAt stream.bytes.length)) := by
  unfold tcpRxFin
  split
  · exact hinv
  rename_i hseq
  have hack : tcp.rcvAck = stream.seqAt (rcvOffset tcp) := hinv.counted hsyn
  rw [not_not, hack, seqAt_inj (by omega) hinv.rcvOffset_le] at hseq
  have hfin := hinv.unfinished hseq.ge
  rw [rcvOffset, hfin] at hseq
  have hall : tcp.delivered = stream.bytes := hinv.inOrder.eq_of_length hseq.symm
  have hnext : tcp.rcvAck + 1 = stream.seqAt (tcp.delivered.length + 1) := by
    rw [hack, rcvOffset, hfin]
    exact seqAt_add _ 1
  simp only [tcpRxSeq, hsyn]
  refine RxInv.frame ?_ (rxFrame_tcpCloseSend _)
  exact
    { inOrder := hinv.inOrder
      counted := fun _ => by simpa using hnext
      complete := fun _ => hall
      queued := hinv.queued
      unsynced := fun h => by simp at h
      opened := fun _ => .inl rfl
      forgotten := fun h => by simp [hinv.forgotten h] at hsyn }

theorem state_tcpDiscards (n : ℕ) (tcp : TcpConnection) : (tcpDiscards n tcp).state = tcp.state := by
  obtain ⟨rxQueue, heq, -⟩ := tcpDiscards_eq n tcp
  rw [heq]

theorem state_tcpRxData (seq : BitVec 32) (data : Bytes) (discards : ℕ) :
    (tcpRxData tcp seq data discards).state = tcp.state := by
  unfold tcpRxData tcpDeliver
  simp only
  split
  · rfl
  · rw [state_tcpDiscards]
    rfl

/-- One packet taken off the queue, data first and then FIN. -/
theorem rxInv_tcpProcessQueued (hinv : RxInv stream tcp) (hsyn : tcp.state.rcvd.syn = true)
    {queued : TcpRxQueued} (hslice : stream.Slice queued.seq queued.data queued.fin)
    (hcmp : tcpCmp queued.seq tcp.rcvAck ≤ 0) (discards : ℕ) :
    RxInv stream (tcpProcessQueued tcp queued discards) := by
  have hdata := rxInv_tcpRxData hinv hsyn hslice hcmp discards
  unfold tcpProcessQueued
  split
  · rename_i hfin
    obtain ⟨offset, hseq, -, -, hend⟩ := hslice
    rw [hseq, seqAt_add, hend hfin, ← hseq]
    exact rxInv_tcpRxFin hdata (by rw [state_tcpRxData]; exact hsyn)
  · exact hdata

/-- **The queue is processed** up to the first gap.  By induction along the
loop; a packet that is reached has been compared with `rcv_ack`. -/
theorem rxInv_tcpProcessRxQueue (hinv : RxInv stream tcp) (discards : List ℕ) :
    RxInv stream (tcpProcessRxQueue tcp discards) := by
  fun_induction tcpProcessRxQueue tcp discards with
  | case1 => exact hinv
  | case2 => exact hinv
  | case3 tcp discards queued queue hqueue hcmp ih =>
    apply ih
    have hsyn : tcp.state.rcvd.syn = true := by
      by_contra h
      have hnil := (hinv.unsynced (by simpa using h)).1
      simp [hqueue] at hnil
    have hslice := hinv.queued queued (by simp [hqueue])
    have hrest : RxInv stream { tcp with rxQueue := queue } :=
      { hinv with
        queued := fun packet hmem => hinv.queued packet (by simp [hqueue, hmem])
        unsynced := fun h => by simp [hsyn] at h }
    exact rxInv_tcpProcessQueued hrest hsyn hslice (by simpa using hcmp) _

theorem mem_tcpRxInsert {packet packet' : TcpRxQueued} {queue : List TcpRxQueued}
    (h : packet' ∈ tcpRxInsert packet queue) : packet' = packet ∨ packet' ∈ queue := by
  induction queue with
  | nil => simpa [tcpRxInsert] using h
  | cons queued queue ih =>
    unfold tcpRxInsert at h
    split at h
    · simpa using h
    · rcases mem_cons.1 h with rfl | h
      · simp
      · rcases ih h with rfl | h
        · simp
        · simp [h]

/-- A packet that is queued has content, and a SYN has been received. -/
theorem rxInv_tcpRxEnqueue (hinv : RxInv stream tcp) {seq : BitVec 32} {fin : Bool}
    {data : Bytes} (hslice : data ≠ [] ∨ fin = true → stream.Slice seq data fin) :
    RxInv stream (tcpRxEnqueue tcp seq fin data) := by
  unfold tcpRxEnqueue
  simp only
  split
  · exact hinv
  rename_i hkeep
  simp only [not_or, not_not] at hkeep
  obtain ⟨hsyn, -, -, hlen⟩ := hkeep
  have hcontent : data ≠ [] ∨ fin = true := by
    by_contra h
    simp only [not_or, not_not] at h
    simp [h.1, h.2] at hlen
  exact
    { hinv with
      queued := fun packet hmem => by
        rcases mem_tcpRxInsert hmem with rfl | hmem
        · exact hslice hcontent
        · exact hinv.queued packet hmem
      unsynced := fun h => by simp [hsyn] at h }

/-- The events of a run with the peer: segments for the connection are the peer's, and
the application does not close its interface. -/
def PeerEvent (stream : PeerStream) (tcp : TcpConnection) : TcpEvent → Prop
  | .rx pshdrCsum packet _ => ∀ segment, tcpParse pshdrCsum packet = .ok segment →
      segment.dest = tcp.localPort → stream.Sends segment
  | .xferClose _ => False
  | _ => True

/-- **One event keeps the receive side in order.** -/
theorem rxInv_tcpStep (tcp : TcpConnection) (event : TcpEvent) (hinv : RxInv stream tcp)
    (hevent : PeerEvent stream tcp event) : RxInv stream (tcpStep tcp event) := by
  by_cases hdel : tcp.deleted = true
  · unfold tcpStep
    rwa [if_pos hdel]
  -- a segment for the connection is the peer's, so that its SYN is the peer's
  have hheardSyn {tcp₁ : TcpConnection} {segment : TcpSegment} (hframe : RxFrame tcp tcp₁)
      (hsends : stream.Sends segment) : RxInv stream (tcpHeardSyn tcp₁ segment) := by
    unfold tcpHeardSyn
    split
    · next hsyn =>
        rw [hsends.1 hsyn]
        exact rxInv_tcpRxSyn (hinv.frame hframe)
          (hframe.deleted.trans (Bool.eq_false_of_not_eq_true hdel)) segment.options
    · exact hinv.frame hframe
  refine rx_tcpStep RxInv.frame hinv (rxInv_abort hinv) ?_ ?_
  · rintro ⟨env, rfl⟩
    exact hevent.elim
  · rintro pshdrCsum packet env segment tcp₁ rfl hparse hport hframe
    have hsends := hevent segment hparse hport
    have hheard := hheardSyn hframe hsends
    exact ⟨rxInv_abort hheard,
      rxInv_tcpProcessRxQueue (rxInv_tcpRxEnqueue hheard hsends.2) env.discards⟩

theorem rxInv_tcpOpen (localPort mtu : ℕ) (sndSeq : BitVec 32) :
    RxInv stream (tcpOpen localPort mtu sndSeq) where
  inOrder := nil_prefix
  counted := fun h => by simp [tcpOpen, TcpState.synSent] at h
  complete := fun h => by simp [tcpOpen, TcpState.synSent] at h
  queued := by simp [tcpOpen]
  unsynced := fun _ => by simp [tcpOpen, TcpState.synSent]
  opened := fun h => by simp [tcpOpen] at h
  forgotten := fun h => by simp [tcpOpen] at h

end

/-- **TCP receive correctness.**  However the segments of the peer's stream arrive, the bytes handed
to the application are an initial part of the stream, and from the SYN on `rcv_ack` is the number
of the next byte, or the one after it when the FIN has been accepted behind the last byte. -/
theorem tcp_receive_correct (stream : PeerStream) (localPort mtu : ℕ) (sndSeq : BitVec 32)
    (events : List TcpEvent)
    (hevents : Meets tcpStep (PeerEvent stream) (tcpOpen localPort mtu sndSeq) events) :
    let tcp := run tcpStep (tcpOpen localPort mtu sndSeq) events
    tcp.delivered <+: stream.bytes ∧
    (tcp.state.rcvd.syn = true →
      tcp.rcvAck = stream.isn + 1 + BitVec.ofNat 32 tcp.delivered.length +
        (if tcp.state.rcvd.fin then 1 else 0)) ∧
    (tcp.state.rcvd.fin = true → tcp.delivered = stream.bytes) := by
  have hinv : RxInv stream (run tcpStep (tcpOpen localPort mtu sndSeq) events) :=
    run_invariant rxInv_tcpStep (rxInv_tcpOpen localPort mtu sndSeq) hevents
  refine ⟨hinv.inOrder, fun hsyn => ?_, hinv.complete⟩
  rw [hinv.counted hsyn, ← seqAt_add, PeerStream.seqAt, add_comm _ 1, ← serialAt_add]
  cases (run tcpStep (tcpOpen localPort mtu sndSeq) events).state.rcvd.fin <;> rfl

/-! The hypothesis is met by a real exchange.  The initial sequence number is the
largest one, so that the numbers of the stream wrap, and the bytes arrive in two
segments that overlap, the later one first. -/

def wrappingStream : PeerStream := ⟨0xffffffff, [1, 2, 3], by decide⟩

-- SYN and ACK of the first octet of ours
def wrappingSyn : Bytes :=
  [0, 80, 4, 0, 0xff, 0xff, 0xff, 0xff, 0, 0, 0, 1, 0x50, 0x12, 0x10, 0, 0, 0, 0, 0]

def wrappingFirst : Bytes :=
  [0, 80, 4, 0, 0, 0, 0, 0, 0, 0, 0, 1, 0x50, 0x10, 0x10, 0, 0, 0, 0, 0, 1, 2]

-- with the FIN
def wrappingLast : Bytes :=
  [0, 80, 4, 0, 0, 0, 0, 1, 0, 0, 0, 1, 0x50, 0x11, 0x10, 0, 0, 0, 0, 0, 2, 3]

def wrappingEvents : List TcpEvent :=
  [.expired false { xferWindow := 4096 }, .rx 25444 wrappingSyn {}, .discard,
    .process { xferWindow := 4096 }, .rx 26214 wrappingLast {}, .rx 25445 wrappingFirst {},
    .rx 26214 wrappingLast {}]

theorem wrappingEvents_meets :
    Meets tcpStep (PeerEvent wrappingStream) (tcpOpen 1024 1500 0) wrappingEvents := by
  have hfirst : wrappingStream.Slice 0 [1, 2] false :=
    ⟨0, by decide, by decide, by decide, by decide⟩
  have hlast : wrappingStream.Slice 1 [2, 3] true := ⟨1, by decide, by decide, by decide, by decide⟩
  refine ⟨trivial, ?syn, trivial, trivial, ?_, ?_, ?_, trivial⟩
  case syn =>
    intro segment hparse _
    obtain ⟨hseq, hflags, hdata⟩ := tcpParse_fields hparse
    refine ⟨fun _ => by rw [hseq]; decide, fun h => ?_⟩
    rw [hflags, hdata] at h
    exact absurd h (by decide)
  all_goals
    intro segment hparse _
    obtain ⟨hseq, hflags, hdata⟩ := tcpParse_fields hparse
    refine ⟨fun h => absurd h (by rw [hflags]; decide), fun _ => ?_⟩
    rw [hseq, hflags, hdata]
    first | exact hfirst | exact hlast

theorem tcp_receive_correct_wrapping :
    (run tcpStep (tcpOpen 1024 1500 0) wrappingEvents).delivered <+: [1, 2, 3] :=
  (tcp_receive_correct wrappingStream 1024 1500 0 wrappingEvents wrappingEvents_meets).1

end Ipxe.Analysis
