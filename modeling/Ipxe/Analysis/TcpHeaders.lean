import Ipxe.Analysis.TcpSelectiveAcks

/-!
# The length of TCP headers

A segment with SYN has 24 bytes of options and never a selective acknowledgement; others have at
most 40.  So the header takes up to 60 bytes, of which the headroom accounts for 40.
-/

namespace Ipxe.Analysis

open Library Model Interface List

variable (segment : TcpTxSegment)

def optionsLen : ℕ := (segment.options.map TcpTxOption.size).sum

/-- The options fit, and the header length byte says how long the header is. -/
def HeaderBounds : Prop :=
  optionsLen segment ≤ 40 ∧ segment.hlen.toNat / 16 * 4 = 20 + optionsLen segment

/-- No selective acknowledgement blocks are remembered. -/
def NoBlocks (sack : List TcpSackBlock) : Prop := ∀ block ∈ sack, block.left = block.right

section

variable {tcp : TcpConnection}

theorem length_tcpSackLoop (tcp : TcpConnection) (olds : List TcpSackBlock)
    {sack : List TcpSackBlock} (h : sack.length ≤ 3) : (tcpSackLoop tcp olds sack).length ≤ 3 := by
  induction olds generalizing sack with
  | nil => exact h
  | cons old olds ih =>
    unfold tcpSackLoop
    split
    · exact h
    next hfull =>
      have hroom : sack.length < 3 := lt_of_le_of_ne h hfull
      split
      · exact ih h
      split
      · exact ih h
      split
      · exact ih h
      · exact ih (by rw [length_append]; exact hroom)

theorem length_tcpSack (tcp : TcpConnection) (seq : BitVec 32) : (tcpSack tcp seq).length ≤ 3 := by
  apply length_tcpSackLoop
  cases tcpSackBlock tcp seq with
  | none => exact Nat.zero_le _
  | some block => exact (by decide : 1 ≤ 3)

/-- For `rcv_ack` there is no block if the first packet lies behind a gap, and
without remembered blocks there are no others. -/
theorem tcpSack_eq_nil (hahead : HeadAhead tcp) (hblank : NoBlocks tcp.sack) :
    tcpSack tcp tcp.rcvAck = [] := by
  have hnone : tcpSackBlock tcp tcp.rcvAck = none := by
    have hempty : tcpSackBlockLoop tcp.rcvAck tcp.rxQueue ⟨tcp.rcvAck, tcp.rcvAck⟩ =
        ⟨tcp.rcvAck, tcp.rcvAck⟩ := by
      cases hqueue : tcp.rxQueue with
      | nil => rfl
      | cons q queue =>
        have hgap := hahead q (by rw [hqueue]; rfl)
        exact if_pos ⟨hgap, hgap⟩
    unfold tcpSackBlock
    simp only [hempty]
    exact if_pos (.inr trivial)
  have hskip : ∀ olds, NoBlocks olds → tcpSackLoop tcp olds [] = [] := by
    intro olds holds
    induction olds with
    | nil => rfl
    | cons old olds ih =>
      obtain ⟨hold, holds⟩ := forall_mem_cons.1 holds
      unfold tcpSackLoop
      rw [if_pos hold]
      exact ih holds
  unfold tcpSack
  rw [hnone]
  exact hskip _ hblank

theorem tcpTxOptions_bounds (hahead : HeadAhead tcp) {syn : Bool} {sackSeq : BitVec 32}
    (hsyn : syn = true → NoBlocks tcp.sack ∧ sackSeq = tcp.rcvAck) (ticks : BitVec 32) :
    ((tcpTxOptions tcp syn sackSeq ticks).2.map TcpTxOption.size).sum ≤ 40 ∧
    4 ∣ ((tcpTxOptions tcp syn sackSeq ticks).2.map TcpTxOption.size).sum ∧
    (syn = true → NoBlocks (tcpTxOptions tcp syn sackSeq ticks).1.sack) := by
  have hthree := length_tcpSack tcp sackSeq
  unfold tcpTxOptions
  cases syn with
  | true =>
    obtain ⟨hblank, rfl⟩ := hsyn rfl
    simp only [tcpSack_eq_nil hahead hblank, if_true, append_nil]
    split
    · refine ⟨(by decide : 24 ≤ 40), (by decide : 4 ∣ 24), fun _ block hmem => ?_⟩
      rw [eq_of_mem_replicate hmem]
    · exact ⟨(by decide : 24 ≤ 40), (by decide : 4 ∣ 24), fun _ => hblank⟩
  | false =>
    have hts : ((if (false || tcp.tsEnabled) = true then [TcpTxOption.timestamp ticks tcp.tsRecent]
        else []).map TcpTxOption.size).sum = if tcp.tsEnabled then 12 else 0 := by
      cases tcp.tsEnabled <;> rfl
    have hsack (blocks : List TcpSackBlock) :
        ((if blocks = [] then [] else [TcpTxOption.sack blocks]).map TcpTxOption.size).sum =
          if blocks = [] then 0 else 4 + 8 * blocks.length := by
      split <;> rfl
    simp only [Bool.false_eq_true, if_false, nil_append, false_implies, and_true]
    split
    · simp only [map_append, sum_append, hts, hsack]
      split <;> split <;> omega
    · simp only [hts]
      split <;> decide

/-! ## What sends no segment -/

/-- No segment is sent, and our SYN is not taken up again: if it is still being sent then the
timer is left alone and no blocks are remembered. -/
structure Quiet (tcp tcp' : TcpConnection) : Prop where
  transmitted : tcp'.transmitted = tcp.transmitted
  syn : tcp'.state.sending.syn = true → tcp.state.sending.syn = true ∧ tcp'.timer = tcp.timer ∧
    (NoBlocks tcp.sack → NoBlocks tcp'.sack)

theorem Quiet.refl (tcp : TcpConnection) : Quiet tcp tcp := ⟨rfl, fun h => ⟨h, rfl, id⟩⟩

theorem Quiet.trans {tcp₁ tcp₂ tcp₃ : TcpConnection} (h₁ : Quiet tcp₁ tcp₂)
    (h₂ : Quiet tcp₂ tcp₃) : Quiet tcp₁ tcp₃ where
  transmitted := h₂.transmitted.trans h₁.transmitted
  syn h := by
    obtain ⟨hsyn, htimer, hblank⟩ := h₂.syn h
    obtain ⟨hsyn', htimer', hblank'⟩ := h₁.syn hsyn
    exact ⟨hsyn', htimer.trans htimer', hblank ∘ hblank'⟩

variable {tcp' : TcpConnection}

theorem quiet_of_prepares (h : Prepares tcp tcp') : Quiet tcp tcp' := by
  obtain ⟨_, _, _, _, _, _, rfl⟩ := h
  exact ⟨rfl, fun h => ⟨h, rfl, id⟩⟩

theorem quiet_tcpDiscards (n : ℕ) (tcp : TcpConnection) : Quiet tcp (tcpDiscards n tcp) := by
  obtain ⟨rxQueue, heq, -⟩ := tcpDiscards_eq n tcp
  rw [heq]
  exact ⟨rfl, fun h => ⟨h, rfl, id⟩⟩

theorem quiet_tcpRxSeq (tcp : TcpConnection) (seqLen : BitVec 32) :
    Quiet tcp (tcpRxSeq tcp seqLen) := by
  refine ⟨rfl, fun h => ⟨h, rfl, fun hblank block hmem => ?_⟩⟩
  obtain ⟨old, hold, rfl⟩ := mem_map.1 hmem
  rw [if_pos (hblank old hold)]
  exact hblank old hold

theorem quiet_tcpRxAck {ack win : BitVec 32} (h : tcpRxAck tcp ack win = .ok tcp') :
    Quiet tcp tcp' := by
  have hacked (state : TcpState) (syn : Bool) (hsyn : state.acked.syn = (syn || state.sent.syn && !syn)) :
      ¬ state.sending.syn = true := by
    simp only [TcpState.sending, hsyn]
    cases state.sent.syn <;> cases syn <;> decide
  unfold tcpRxAck at h
  simp only at h
  split_ifs at h <;> cases h
  · exact .refl tcp
  · exact ⟨rfl, fun h => ⟨h, rfl, id⟩⟩
  all_goals exact ⟨rfl, fun h => absurd h (hacked _ tcp.state.acked.syn rfl)⟩

section

variable (tcp : TcpConnection)

theorem quiet_tcpCloseSend : Quiet tcp (tcpCloseSend tcp) := by
  have hack : Quiet tcp (tcpSynAcked tcp) := by
    unfold tcpSynAcked
    split
    · exact .refl tcp
    · unfold tcpAct
      simp only
      split
      · next hok => exact quiet_tcpRxAck hok
      · exact .refl tcp
  rw [tcpCloseSend_eq]
  split <;> exact hack.trans ⟨rfl, fun h => ⟨h, rfl, id⟩⟩

theorem quiet_tcpClose : Quiet tcp (tcpClose tcp) := by
  have hshut : Quiet tcp { tcp with xferClosed := true } := ⟨rfl, fun h => ⟨h, rfl, id⟩⟩
  unfold tcpClose
  simp only
  split
  · exact hshut.trans (quiet_tcpCloseSend _)
  · exact ⟨rfl, fun h => by cases h⟩

theorem quiet_abort : Quiet tcp (tcpClose { tcp with state := .closed }) :=
  ⟨rfl, fun h => by cases h⟩

theorem quiet_tcpHeardSyn (segment : TcpSegment) : Quiet tcp (tcpHeardSyn tcp segment) := by
  have hsync : Quiet tcp
      (if tcp.state.rcvd.syn then tcp else tcpSynchronise tcp segment.seq segment.options) := by
    split <;> exact ⟨rfl, fun h => ⟨h, rfl, id⟩⟩
  unfold tcpHeardSyn tcpRxSyn
  simp only
  generalize (if tcp.state.rcvd.syn then tcp else
    tcpSynchronise tcp segment.seq segment.options) = synced at hsync ⊢
  split
  · split
    · exact hsync
    · refine (hsync.trans (quiet_tcpRxSeq synced 1)).trans ?_
      exact ⟨rfl, fun h => ⟨h, rfl, id⟩⟩
  · exact .refl tcp

theorem quiet_tcpRxData (seq : BitVec 32) (data : Bytes) (discards : ℕ) :
    Quiet tcp (tcpRxData tcp seq data discards) := by
  unfold tcpRxData tcpDeliver
  simp only
  split
  · exact .refl tcp
  · have hseq := quiet_tcpRxSeq tcp
      (BitVec.ofNat 32 (data.drop (tcp.rcvAck - seq).toNat).length)
    refine (hseq.trans ?_).trans (quiet_tcpDiscards discards _)
    exact ⟨rfl, fun h => ⟨h, rfl, id⟩⟩

theorem quiet_tcpRxFin (seq : BitVec 32) : Quiet tcp (tcpRxFin tcp seq) := by
  unfold tcpRxFin
  split
  · exact .refl tcp
  · refine ((quiet_tcpRxSeq tcp 1).trans ?_).trans (quiet_tcpClose _)
    exact ⟨rfl, fun h => ⟨h, rfl, id⟩⟩

theorem quiet_tcpProcessRxQueue (discards : List ℕ) :
    Quiet tcp (tcpProcessRxQueue tcp discards) := by
  fun_induction tcpProcessRxQueue tcp discards with
  | case1 => exact .refl _
  | case2 => exact .refl _
  | case3 tcp discards queued queue hqueue hcmp ih =>
    have hrest : Quiet tcp { tcp with rxQueue := queue } := ⟨rfl, fun h => ⟨h, rfl, id⟩⟩
    have hdata := hrest.trans (quiet_tcpRxData _ queued.seq queued.data (discards.headD 0))
    refine Quiet.trans ?_ ih
    unfold tcpProcessQueued
    split
    · exact hdata.trans (quiet_tcpRxFin _ _)
    · exact hdata

end

theorem quiet_heardSyn {tcp₁ : TcpConnection} {segment : TcpSegment}
    (hheard : Hears tcp segment tcp₁) : Quiet tcp (tcpHeardSyn tcp₁ segment) := by
  refine Quiet.trans ?_ (quiet_tcpHeardSyn tcp₁ segment)
  cases hheard with
  | unacked hp => exact quiet_of_prepares hp
  | acked hbefore hflag hack hafter =>
    exact ((quiet_of_prepares hbefore).trans (quiet_tcpRxAck hack)).trans (quiet_of_prepares hafter)

theorem quiet_tcpRxEnqueue (tcp : TcpConnection) (seq : BitVec 32) (fin : Bool)
    (data : Bytes) : Quiet tcp (tcpRxEnqueue tcp seq fin data) := by
  unfold tcpRxEnqueue
  simp only
  split <;> exact ⟨rfl, fun h => ⟨h, rfl, id⟩⟩

/-- While our SYN is being sent no blocks are remembered; and the segments sent so far are
within bounds. -/
structure SynPlain (tcp : TcpConnection) : Prop where
  blocks : tcp.state.sending.syn = true → NoBlocks tcp.sack
  sent : ∀ segment ∈ tcp.transmitted, HeaderBounds segment

/-- The timer runs while our SYN is being sent. -/
def SynTimed (tcp : TcpConnection) : Prop := tcp.state.sending.syn = true → tcp.timer = true

theorem SynPlain.quiet (h : SynPlain tcp) (hquiet : Quiet tcp tcp') : SynPlain tcp' where
  blocks hsyn := (hquiet.syn hsyn).2.2 (h.blocks (hquiet.syn hsyn).1)
  sent := by
    rw [hquiet.transmitted]
    exact h.sent

theorem SynTimed.quiet (h : SynTimed tcp) (hquiet : Quiet tcp tcp') : SynTimed tcp' := by
  intro hsyn
  rw [(hquiet.syn hsyn).2.1]
  exact h (hquiet.syn hsyn).1

theorem synPlain_tcpTransmit (h : SynPlain tcp) (hahead : HeadAhead tcp) {sackSeq : BitVec 32}
    (hseq : tcp.state.sending.syn = true → sackSeq = tcp.rcvAck) (data : Bytes)
    (env : TcpXmitEnv) : SynPlain (tcpTransmit tcp data sackSeq env) := by
  obtain ⟨rcvWin, hwindow, -⟩ := tcpExpandWindow_eq tcp env.xferWindow
  obtain ⟨hforty, hfour, hblank⟩ := @tcpTxOptions_bounds { tcp with rcvWin := rcvWin } hahead
    tcp.state.sending.syn sackSeq (fun hsyn => ⟨h.blocks hsyn, hseq hsyn⟩) env.ticks
  obtain ⟨sack, hoptions⟩ :=
    tcpTxOptions_eq { tcp with rcvWin := rcvWin } tcp.state.sending.syn sackSeq env.ticks
  rw [hoptions] at hblank
  unfold tcpTransmit
  simp only [hwindow, hoptions]
  split
  · refine ⟨hblank, fun segment hmem => ?_⟩
    rcases mem_append.1 hmem with hmem | hmem
    · exact h.sent segment hmem
    · rw [mem_singleton.1 hmem]
      unfold HeaderBounds optionsLen
      simp only [BitVec.toNat_ofNat]
      omega
  · exact ⟨hblank, h.sent⟩

/-- **A transmission** sends a SYN only when the timer is not running. -/
theorem synPlain_tcpXmitSack (h : SynPlain tcp) (hahead : HeadAhead tcp) {sackSeq : BitVec 32}
    (hseq : tcp.state.sending.syn = true → tcp.timer = true ∨ sackSeq = tcp.rcvAck)
    (env : TcpXmitEnv) :
    SynPlain (tcpXmitSack tcp sackSeq env) ∧ SynTimed (tcpXmitSack tcp sackSeq env) := by
  have hlen (hsyn : tcp.state.sending.syn = true) : tcpTxSeqLen tcp ≠ 0 := by
    unfold tcpTxSeqLen
    rw [hsyn, Bool.true_or]
    exact Nat.succ_ne_zero _
  unfold tcpXmitSack
  simp only
  split
  · next htimer => exact ⟨h, fun _ => htimer⟩
  next htimer =>
    split
    · next hidle => exact ⟨⟨h.blocks, h.sent⟩, fun hsyn => absurd hidle.1 (hlen hsyn)⟩
    · obtain ⟨rxQueue, hdiscards, hqueue⟩ := tcpDiscards_eq env.discards
        { tcp with
          sndSent := BitVec.ofNat 32 (tcpTxSeqLen tcp), timer := decide (tcpTxSeqLen tcp ≠ 0) }
      rw [hdiscards]
      have hbuilt : SynPlain { tcp with
          sndSent := BitVec.ofNat 32 (tcpTxSeqLen tcp), timer := decide (tcpTxSeqLen tcp ≠ 0)
          rxQueue := rxQueue } := ⟨h.blocks, h.sent⟩
      split
      · obtain ⟨rcvWin, sack, ackPending, fresh, htransmit, -⟩ := tcpTransmit_eq { tcp with
          sndSent := BitVec.ofNat 32 (tcpTxSeqLen tcp), timer := decide (tcpTxSeqLen tcp ≠ 0)
          rxQueue := rxQueue } (tcpTxData tcp) sackSeq env
        refine ⟨synPlain_tcpTransmit hbuilt (hahead.frame rfl hqueue)
          (fun hsyn => (hseq hsyn).resolve_left htimer) _ _, ?_⟩
        rw [htransmit]
        exact fun hsyn => decide_eq_true (hlen hsyn)
      · exact ⟨hbuilt, fun hsyn => decide_eq_true (hlen hsyn)⟩

/-- **One event sends only segments within bounds.** -/
theorem synPlain_tcpStep (tcp : TcpConnection) (event : TcpEvent)
    (h : HeadAhead tcp ∧ SynPlain tcp ∧ SynTimed tcp) :
    HeadAhead (tcpStep tcp event) ∧ SynPlain (tcpStep tcp event) ∧ SynTimed (tcpStep tcp event) := by
  obtain ⟨hahead, hplain, htimed⟩ := h
  refine ⟨headAhead_tcpStep tcp event hahead, ?_⟩
  have hquiet {tcp' : TcpConnection} (hq : Quiet tcp tcp') : SynPlain tcp' ∧ SynTimed tcp' :=
    ⟨hplain.quiet hq, htimed.quiet hq⟩
  have hstep := tcpStepOf_tcpStep tcp event
  generalize tcpStep tcp event = tcp' at hstep
  cases hstep with
  | prepare hp => exact hquiet (quiet_of_prepares hp)
  | discard => exact hquiet (quiet_tcpDiscards 1 tcp)
  | xmit hp env =>
    have hframe := rxFrame_of_prepares hp
    obtain ⟨hplain', htimed'⟩ := hquiet (quiet_of_prepares hp)
    exact synPlain_tcpXmitSack hplain' (hahead.frame hframe.rcvAck hframe.rxQueue)
      (fun hsyn => .inl (htimed' hsyn)) env
  | expired env =>
    exact @synPlain_tcpXmitSack { tcp with timer := false } ⟨hplain.blocks, hplain.sent⟩ hahead
      tcp.rcvAck (fun _ => .inr rfl) env
  | abort => exact hquiet (quiet_abort tcp)
  | close env =>
    obtain ⟨hplain', htimed'⟩ := hquiet (quiet_tcpClose tcp)
    exact synPlain_tcpXmitSack hplain' (hahead.frame (rcvAck_tcpClose tcp) (rxQueue_tcpClose tcp))
      (fun hsyn => .inl (htimed' hsyn)) env
  | reset hparse hport hheard => exact hquiet ((quiet_heardSyn hheard).trans (quiet_abort _))
  | @receive pshdrCsum packet env segment tcp₁ hparse hport hheard hrst =>
    obtain ⟨hplain', htimed'⟩ := hquiet (((quiet_heardSyn hheard).trans
      (quiet_tcpRxEnqueue _ (contentSeq segment) segment.flags.fin segment.data)).trans
      (quiet_tcpProcessRxQueue _ env.discards))
    rcases tcpRxContent_prepares (tcpHeardSyn tcp₁ segment) (contentSeq segment) segment env with
      hp | hp
    · exact ⟨hplain'.quiet (quiet_of_prepares hp), htimed'.quiet (quiet_of_prepares hp)⟩
    · obtain ⟨hsent, hstill⟩ := synPlain_tcpXmitSack hplain' (headAhead_tcpProcessRxQueue _ _)
        (fun hsyn => .inl (htimed' hsyn)) env.xmit
      exact ⟨hsent.quiet (quiet_of_prepares hp), hstill.quiet (quiet_of_prepares hp)⟩

end

/-- A connection with timestamps and selective acknowledgements, and three packets behind
gaps. -/
def threeGaps : List TcpEvent :=
  [.expired false { xferWindow := 4096 },
    .rx 31136
      [0, 80, 4, 0, 0, 0, 0, 9, 0, 0, 0, 1, 0x80, 0x12, 0x10, 0, 0, 0, 0, 0,
        8, 10, 0, 0, 0, 1, 0, 0, 0, 0, 4, 2] {},
    .rx 28011 [0, 80, 4, 0, 0, 0, 0, 12, 0, 0, 0, 1, 0x50, 0x10, 0x10, 0, 0, 0, 0, 0, 7] {},
    .rx 28523 [0, 80, 4, 0, 0, 0, 0, 14, 0, 0, 0, 1, 0x50, 0x10, 0x10, 0, 0, 0, 0, 0, 7] {},
    .rx 29035 [0, 80, 4, 0, 0, 0, 0, 16, 0, 0, 0, 1, 0x50, 0x10, 0x10, 0, 0, 0, 0, 0, 7] {}]

theorem optionsLen_threeGaps :
    ((run tcpStep (tcpOpen 1024 1500 0) threeGaps).transmitted.map optionsLen) = [24, 24, 32, 40] := by
  decide +kernel

/-- **TCP header bounds.**  Every segment of every run has at most 40 bytes of options and a
header length byte that says how long its header is; and all headers fit in the headroom just
if the layers below take no more than it leaves to them beside a header of 60 bytes. -/
theorem tcp_header_bounds (lower : ℕ) :
    (∀ (localPort mtu : ℕ) (sndSeq : BitVec 32) (events : List TcpEvent),
      ∀ segment ∈ (run tcpStep (tcpOpen localPort mtu sndSeq) events).transmitted,
        HeaderBounds segment ∧ lower + (20 + optionsLen segment) ≤ tcpMaxHeaderLen) ↔
      lower + 60 ≤ tcpMaxHeaderLen := by
  constructor
  · intro h
    have hlast : 40 ∈ (run tcpStep (tcpOpen 1024 1500 0) threeGaps).transmitted.map optionsLen := by
      rw [optionsLen_threeGaps]
      decide
    obtain ⟨segment, hmem, hlen⟩ := mem_map.1 hlast
    have hfits := (h 1024 1500 0 threeGaps segment hmem).2
    omega
  · intro hroom localPort mtu sndSeq events segment hmem
    have hopen : HeadAhead (tcpOpen localPort mtu sndSeq) ∧
        SynPlain (tcpOpen localPort mtu sndSeq) ∧ SynTimed (tcpOpen localPort mtu sndSeq) := by
      refine ⟨fun q hq => ?_, ⟨fun _ block hblock => ?_, forall_mem_nil _⟩, fun _ => rfl⟩
      · cases hq
      · rw [eq_of_mem_replicate hblock]
    have hbounds := (run_keeps synPlain_tcpStep hopen events).2.1.sent segment hmem
    refine ⟨hbounds, ?_⟩
    have hforty := hbounds.1
    omega

/-- Over IPv6 and RNDIS, with a VLAN tag, the layers below take 40 + 8 + 32 + 14 + 4 bytes. -/
theorem tcp_header_bounds_rndis :
    ∃ segment ∈ (run tcpStep (tcpOpen 1024 1500 0) threeGaps).transmitted,
      ¬ (40 + 8 + 32 + 14 + 4) + (20 + optionsLen segment) ≤ tcpMaxHeaderLen := by
  decide +kernel

end Ipxe.Analysis
