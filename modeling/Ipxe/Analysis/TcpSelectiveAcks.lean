import Ipxe.Analysis.TcpReceive
import Ipxe.Analysis.TcpTransmit
import Ipxe.Library.SpanRuns

/-!
# Selective acknowledgements

The receive queue is sorted by the distance from `rcv_ack` (`QueueInv`).  So the walk of
`tcp_sack_block` is a walk over spans of integers, and what it finds is a run of the numbers held.
-/

namespace Ipxe.Analysis

open Library Model List

/-- The sequence numbers that a queued packet takes: its data and its FIN. -/
def seqLen (queued : TcpRxQueued) : ℕ := queued.data.length + queued.fin.toNat

/-- A sequence number is held in the receive queue. -/
def HoldsSeq (tcp : TcpConnection) (x : BitVec 32) : Prop :=
  ∃ queued ∈ tcp.rxQueue, (x - queued.seq).toNat < seqLen queued

/-- A sequence number lies in a block. -/
def InSackBlock (block : TcpSackBlock) (x : BitVec 32) : Prop :=
  (x - block.left).toNat < (block.right - block.left).toNat

/-- What the blocks of a selective acknowledgement have to be. -/
structure SackCorrect (tcp : TcpConnection) (blocks : List TcpSackBlock) : Prop where
  nonempty : ∀ block ∈ blocks, block.left ≠ block.right
  /-- behind the next sequence number expected -/
  beyond : ∀ block ∈ blocks, ∀ x, InSackBlock block x → 0 < tcpCmp x tcp.rcvAck
  /-- only what is held is acknowledged -/
  honest : ∀ block ∈ blocks, ∀ x, InSackBlock block x → HoldsSeq tcp x
  /-- the numbers next to the block are not held -/
  maximal : ∀ block ∈ blocks, ¬ HoldsSeq tcp (block.left - 1) ∧ ¬ HoldsSeq tcp block.right
  disjoint : blocks.Pairwise fun block block' => ∀ x, ¬ (InSackBlock block x ∧ InSackBlock block' x)

/-- The queue is sorted, and its packets are near `ack`. -/
structure InOrder (ack : BitVec 32) (queue : List TcpRxQueued) : Prop where
  sorted : queue.Pairwise fun p q => tcpCmp p.seq ack ≤ tcpCmp q.seq ack
  taken : ∀ q ∈ queue, q.nxt = q.seq + BitVec.ofNat 32 (seqLen q) ∧ 0 < seqLen q ∧ seqLen q ≤ 2 ^ 29
  near : ∀ q ∈ queue, -2 ^ 29 ≤ tcpCmp q.seq ack ∧ tcpCmp q.seq ack < 2 ^ 21

section

variable {ack : BitVec 32} {queue : List TcpRxQueued}

theorem inOrder_nil (ack : BitVec 32) : InOrder ack [] :=
  ⟨List.Pairwise.nil, forall_mem_nil _, forall_mem_nil _⟩

theorem InOrder.sublist {queue' : List TcpRxQueued} (h : InOrder ack queue)
    (hsub : queue'.Sublist queue) : InOrder ack queue' where
  sorted := h.sorted.sublist hsub
  taken q hmem := h.taken q (hsub.subset hmem)
  near q hmem := h.near q (hsub.subset hmem)

theorem tcpCmp_near {x y : BitVec 32} (hx : -2 ^ 29 ≤ tcpCmp x ack ∧ tcpCmp x ack < 2 ^ 30)
    (hy : -2 ^ 29 ≤ tcpCmp y ack ∧ tcpCmp y ack < 2 ^ 30) :
    tcpCmp x y = tcpCmp x ack - tcpCmp y ack := by
  unfold tcpCmp at hx hy ⊢
  exact serialCmp_eq_sub ack x y (by omega) (by omega)

theorem InOrder.tcpCmp_nxt (h : InOrder ack queue) {q : TcpRxQueued} (hmem : q ∈ queue) :
    tcpCmp q.nxt ack = tcpCmp q.seq ack + seqLen q := by
  obtain ⟨hnxt, -, hlen⟩ := h.taken q hmem
  have hnear := h.near q hmem
  unfold tcpCmp at hnear ⊢
  rw [hnxt]
  exact serialCmp_add ack q.seq _ (by omega) (by omega)

/-- The queue stays in order when `ack` moves on, unless it leaves packets far behind. -/
theorem InOrder.advance (h : InOrder ack queue) {n : ℕ} (hn : n ≤ 2 ^ 29)
    (hlow : ∀ q ∈ queue, (n : ℤ) - 2 ^ 29 ≤ tcpCmp q.seq ack) :
    InOrder (ack + BitVec.ofNat 32 n) queue := by
  have hshift : ∀ q ∈ queue, tcpCmp q.seq (ack + BitVec.ofNat 32 n) = tcpCmp q.seq ack - n := by
    intro q hmem
    have hnear := h.near q hmem
    have hq := hlow q hmem
    unfold tcpCmp at hnear hq ⊢
    exact serialCmp_advance ack q.seq n (by omega) (by omega)
  refine ⟨h.sorted.imp_of_mem fun hp hq hle => ?_, h.taken, fun q hmem => ?_⟩
  · rw [hshift _ hp, hshift _ hq]
    omega
  · have hnear := h.near q hmem
    have hq := hlow q hmem
    rw [hshift q hmem]
    omega

theorem InOrder.insert (h : InOrder ack queue) {packet : TcpRxQueued}
    (htaken : packet.nxt = packet.seq + BitVec.ofNat 32 (seqLen packet) ∧ 0 < seqLen packet ∧
      seqLen packet ≤ 2 ^ 29)
    (hnear : -2 ^ 29 ≤ tcpCmp packet.seq ack ∧ tcpCmp packet.seq ack < 2 ^ 21) :
    InOrder ack (tcpRxInsert packet queue) where
  taken q hmem := by
    rcases mem_tcpRxInsert hmem with rfl | hmem
    · exact htaken
    · exact h.taken q hmem
  near q hmem := by
    rcases mem_tcpRxInsert hmem with rfl | hmem
    · exact hnear
    · exact h.near q hmem
  sorted := by
    induction queue with
    | nil => exact pairwise_singleton _ _
    | cons q queue ih =>
      have hq := h.near q mem_cons_self
      have hcmp : tcpCmp packet.seq q.seq = tcpCmp packet.seq ack - tcpCmp q.seq ack :=
        tcpCmp_near (by omega) (by omega)
      obtain ⟨hfirst, hrest⟩ := pairwise_cons.1 h.sorted
      unfold tcpRxInsert
      split
      · refine pairwise_cons.2 ⟨fun r hmem => ?_, h.sorted⟩
        rcases mem_cons.1 hmem with rfl | hmem
        · omega
        · have hr := hfirst r hmem
          omega
      · refine pairwise_cons.2 ⟨fun r hmem => ?_, ih (h.sublist (sublist_cons_self _ _))⟩
        rcases mem_tcpRxInsert hmem with rfl | hmem
        · omega
        · exact hfirst r hmem

/-- The distances from `ack` that a packet takes. -/
def spanOf (ack : BitVec 32) (queued : TcpRxQueued) : Span :=
  ⟨tcpCmp queued.seq ack, tcpCmp queued.seq ack + seqLen queued⟩

theorem eq_of_tcpCmp_eq {x y : BitVec 32} (h : tcpCmp x ack = tcpCmp y ack) : x = y :=
  sub_left_injective (BitVec.eq_of_toInt_eq h)

/-- A block is a run of the queue, not far from `ack`. -/
def RunBlock (ack : BitVec 32) (queue : List TcpRxQueued) (block : TcpSackBlock) : Prop :=
  IsRun (queue.map (spanOf ack)) (tcpCmp block.left ack) (tcpCmp block.right ack) ∧
    0 ≤ tcpCmp block.left ack ∧ tcpCmp block.right ack < 2 ^ 30

theorem runBlock_of_walked {done rest : List TcpRxQueued} {block : TcpSackBlock}
    (hwalk : Walked (done.map (spanOf ack)) (tcpCmp block.left ack) (tcpCmp block.right ack))
    (hleft : 0 ≤ tcpCmp block.left ack) (hright : tcpCmp block.right ack < 2 ^ 30)
    (hgap : ∀ q ∈ rest, tcpCmp block.right ack < tcpCmp q.seq ack)
    (hne : block.left ≠ block.right) : RunBlock ack (done ++ rest) block := by
  have hlt := lt_of_le_of_ne hwalk.ordered fun heq => hne (eq_of_tcpCmp_eq heq)
  refine ⟨?_, hleft, hright⟩
  rw [map_append]
  refine hwalk.isRun hlt fun span hspan => ?_
  obtain ⟨q, hmem, rfl⟩ := mem_map.1 hspan
  exact hgap q hmem

/-- **The walk finds a run.**  By induction on what is left of the queue. -/
theorem runBlock_tcpSackBlockLoop (seq : BitVec 32) {done rest : List TcpRxQueued}
    {block : TcpSackBlock} (h : InOrder ack (done ++ rest))
    (hahead : ∀ q ∈ rest, tcpCmp block.left ack ≤ tcpCmp q.seq ack)
    (hwalk : Walked (done.map (spanOf ack)) (tcpCmp block.left ack) (tcpCmp block.right ack))
    (hleft : 0 ≤ tcpCmp block.left ack) (hright : tcpCmp block.right ack < 2 ^ 30)
    (hne : (tcpSackBlockLoop seq rest block).left ≠ (tcpSackBlockLoop seq rest block).right) :
    RunBlock ack (done ++ rest) (tcpSackBlockLoop seq rest block) := by
  induction rest generalizing done block with
  | nil => exact runBlock_of_walked hwalk hleft hright (forall_mem_nil _) hne
  | cons q rest ih =>
    have hq := h.near q (by simp)
    have hqlen := (h.taken q (by simp)).2
    have hnxt := h.tcpCmp_nxt (by simp : q ∈ done ++ q :: rest)
    have hord := hwalk.ordered
    have hfirst := hahead q mem_cons_self
    have hsorted := (pairwise_cons.1 (pairwise_append.1 h.sorted).2.1).1
    have hcmp : tcpCmp q.seq block.right = tcpCmp q.seq ack - tcpCmp block.right ack :=
      tcpCmp_near (by omega) (by omega)
    have hcmpNxt : tcpCmp q.nxt block.right = tcpCmp q.nxt ack - tcpCmp block.right ack :=
      tcpCmp_near (by omega) (by omega)
    have hassoc : done ++ q :: rest = (done ++ [q]) ++ rest := by simp
    unfold tcpSackBlockLoop at hne ⊢
    by_cases hgap : tcpCmp q.seq block.right > 0
    · by_cases hseq : tcpCmp q.seq seq > 0
      · rw [if_pos ⟨hgap, hseq⟩] at hne ⊢
        refine runBlock_of_walked hwalk hleft hright (fun r hmem => ?_) hne
        rcases mem_cons.1 hmem with rfl | hmem
        · omega
        · have hr := hsorted r hmem
          omega
      · have hstarts : tcpCmp q.nxt block.right > 0 := by omega
        simp only [if_neg (fun hboth => hseq (And.right hboth)), if_pos hgap, if_pos hstarts]
          at hne ⊢
        rw [hassoc] at h ⊢
        refine ih h hsorted ?_ (by simp only; omega) (by simp only; omega) hne
        rw [map_append]
        simp only [hnxt]
        exact hwalk.gap (by simp only [spanOf]; omega) (by simp only [spanOf]; omega)
    · simp only [if_neg (fun hboth => hgap (And.left hboth)), if_neg hgap] at hne ⊢
      rw [hassoc] at h ⊢
      have hmax : tcpCmp (if tcpCmp q.nxt block.right > 0 then q.nxt else block.right) ack =
          max (tcpCmp block.right ack) (spanOf ack q).stop := by
        simp only [spanOf, ← hnxt]
        split <;> omega
      refine ih h (fun r hmem => hfirst.trans (hsorted r hmem)) ?_ hleft ?_ hne
      · rw [map_append]
        simp only [hmax]
        exact hwalk.join hfirst (by simp only [spanOf]; omega)
      · simp only [hmax, spanOf]
        omega

theorem runBlock_tcpSackBlock {tcp : TcpConnection} {seq : BitVec 32} {block : TcpSackBlock}
    (h : InOrder tcp.rcvAck tcp.rxQueue) (hahead : ∀ q ∈ tcp.rxQueue, 0 < tcpCmp q.seq tcp.rcvAck)
    (hblock : tcpSackBlock tcp seq = some block) : RunBlock tcp.rcvAck tcp.rxQueue block := by
  have hzero : tcpCmp tcp.rcvAck tcp.rcvAck = 0 := by
    unfold tcpCmp serialCmp
    rw [sub_self]
    rfl
  unfold tcpSackBlock at hblock
  simp only at hblock
  split at hblock
  · cases hblock
  · next hkeep =>
      cases hblock
      refine @runBlock_tcpSackBlockLoop _ seq [] tcp.rxQueue _ h (fun q hmem => ?_) ?_ ?_ ?_ ?_
      · simp only [hzero]
        exact (hahead q hmem).le
      · exact walked_nil _
      · exact hzero.ge
      · simp only [hzero]
        norm_num
      · exact fun heq => (not_or.1 hkeep).2 heq.symm

/-- **The blocks of `tcp_sack`** are runs with different starts. -/
theorem runBlocks_tcpSackLoop {tcp : TcpConnection} (h : InOrder tcp.rcvAck tcp.rxQueue)
    (hahead : ∀ q ∈ tcp.rxQueue, 0 < tcpCmp q.seq tcp.rcvAck) {olds sack : List TcpSackBlock}
    (hsack : (∀ block ∈ sack, RunBlock tcp.rcvAck tcp.rxQueue block) ∧
      sack.Pairwise fun block block' => block.left ≠ block'.left) :
    (∀ block ∈ tcpSackLoop tcp olds sack, RunBlock tcp.rcvAck tcp.rxQueue block) ∧
      (tcpSackLoop tcp olds sack).Pairwise fun block block' => block.left ≠ block'.left := by
  induction olds generalizing sack with
  | nil => exact hsack
  | cons old olds ih =>
    unfold tcpSackLoop
    split
    · exact hsack
    split
    · exact ih hsack
    split
    · exact ih hsack
    · next block hblock =>
        split
        · exact ih hsack
        · next hdistinct =>
            refine ih ⟨fun block' hmem => ?_, ?_⟩
            · rcases mem_append.1 hmem with hmem | hmem
              · exact hsack.1 block' hmem
              · rw [mem_singleton.1 hmem]
                exact runBlock_tcpSackBlock h hahead hblock
            · refine pairwise_append.2 ⟨hsack.2, pairwise_singleton _ _, ?_⟩
              intro other hother block' hblock' heq
              rw [mem_singleton.1 hblock'] at heq
              exact hdistinct (any_eq_true.2 ⟨other, hother, by simpa using heq⟩)

section

variable {tcp : TcpConnection} {block : TcpSackBlock}

theorem holdsSeq_iff (h : InOrder tcp.rcvAck tcp.rxQueue) (x : BitVec 32) :
    HoldsSeq tcp x ↔ Held (tcp.rxQueue.map (spanOf tcp.rcvAck)) (tcpCmp x tcp.rcvAck) := by
  have hspan : ∀ q ∈ tcp.rxQueue, (x - q.seq).toNat < seqLen q ↔
      (spanOf tcp.rcvAck q).start ≤ tcpCmp x tcp.rcvAck ∧
        tcpCmp x tcp.rcvAck < (spanOf tcp.rcvAck q).stop := by
    intro q hmem
    have hnear := h.near q hmem
    have hlen := (h.taken q hmem).2
    unfold tcpCmp at hnear
    exact toNat_sub_lt_iff tcp.rcvAck x q.seq (by omega) (by omega)
  constructor
  · rintro ⟨q, hmem, hx⟩
    exact ⟨_, mem_map_of_mem hmem, (hspan q hmem).1 hx⟩
  · rintro ⟨span, hspans, hx⟩
    obtain ⟨q, hmem, rfl⟩ := mem_map.1 hspans
    exact ⟨q, hmem, (hspan q hmem).2 hx⟩

theorem RunBlock.inSackBlock_iff (h : RunBlock tcp.rcvAck tcp.rxQueue block) (x : BitVec 32) :
    InSackBlock block x ↔ tcpCmp block.left tcp.rcvAck ≤ tcpCmp x tcp.rcvAck ∧
      tcpCmp x tcp.rcvAck < tcpCmp block.right tcp.rcvAck := by
  obtain ⟨hrun, hleft, hright⟩ := h
  have hlt := hrun.nonempty
  unfold tcpCmp at hlt hleft hright
  have hlen := toNat_sub_eq tcp.rcvAck hlt.le (by omega)
  have hwindow := toNat_sub_lt_iff tcp.rcvAck x block.left
    (show -serialCmp block.left tcp.rcvAck * 4 ≤ 2 ^ 32 by omega)
    (show (serialCmp block.left tcp.rcvAck + ((block.right - block.left).toNat : ℕ)) * 4 ≤ 2 ^ 32 by
      omega)
  rw [hlen, add_sub_cancel] at hwindow
  exact hwindow

theorem RunBlock.maximal (h : RunBlock tcp.rcvAck tcp.rxQueue block)
    (horder : InOrder tcp.rcvAck tcp.rxQueue) :
    ¬ HoldsSeq tcp (block.left - 1) ∧ ¬ HoldsSeq tcp block.right := by
  obtain ⟨hrun, hleft, hright⟩ := h
  have hlt := hrun.nonempty
  have hbefore : tcpCmp (block.left - 1) tcp.rcvAck = tcpCmp block.left tcp.rcvAck - 1 := by
    unfold tcpCmp at hleft hright hlt ⊢
    have hshift := serialCmp_advance tcp.rcvAck block.left 1 (by push_cast; omega)
      (by push_cast; omega)
    have hsub : block.left - 1 - tcp.rcvAck = block.left - (tcp.rcvAck + BitVec.ofNat 32 1) := by
      rw [sub_sub, add_comm]
      rfl
    rw [serialCmp, hsub]
    exact hshift
  rw [holdsSeq_iff horder, holdsSeq_iff horder, hbefore]
  exact ⟨hrun.before, hrun.behind⟩

/-- Blocks that are runs with different starts are what is asked for. -/
theorem sackCorrect_of_runs (horder : InOrder tcp.rcvAck tcp.rxQueue)
    (hahead : ∀ q ∈ tcp.rxQueue, 0 < tcpCmp q.seq tcp.rcvAck) {blocks : List TcpSackBlock}
    (hruns : ∀ block ∈ blocks, RunBlock tcp.rcvAck tcp.rxQueue block)
    (hdistinct : blocks.Pairwise fun block block' => block.left ≠ block'.left) :
    SackCorrect tcp blocks := by
  have hheld : ∀ block ∈ blocks, ∀ x, InSackBlock block x →
      Held (tcp.rxQueue.map (spanOf tcp.rcvAck)) (tcpCmp x tcp.rcvAck) := by
    intro block hblock x hx
    obtain ⟨hlo, hhi⟩ := ((hruns block hblock).inSackBlock_iff x).1 hx
    exact (hruns block hblock).1.covered _ hlo hhi
  refine ⟨fun block hblock heq => ?_, fun block hblock x hx => ?_, fun block hblock x hx => ?_,
    fun block hblock => (hruns block hblock).maximal horder, ?_⟩
  · have hlt := (hruns block hblock).1.nonempty
    rw [heq] at hlt
    exact lt_irrefl _ hlt
  · obtain ⟨span, hspan, hlo, -⟩ := hheld block hblock x hx
    obtain ⟨q, hmem, rfl⟩ := mem_map.1 hspan
    exact (hahead q hmem).trans_le hlo
  · exact (holdsSeq_iff horder x).2 (hheld block hblock x hx)
  · refine hdistinct.imp_of_mem fun hblock hblock' hne x hboth => ?_
    have hx := ((hruns _ hblock).inSackBlock_iff x).1 hboth.1
    have hx' := ((hruns _ hblock').inSackBlock_iff x).1 hboth.2
    exact (hruns _ hblock).1.disjoint (hruns _ hblock').1
      (fun heq => hne (eq_of_tcpCmp_eq heq)) hx hx'

end

end

/-! ## The invariant of the receive queue -/

/-- The queue is in order once a SYN has been received, and the window is not too large. -/
structure QueueInv (tcp : TcpConnection) : Prop where
  window : tcp.rcvWin.toNat ≤ 2048 * 1024
  synced : tcp.rxQueue ≠ [] → tcp.state.rcvd.syn = true
  order : InOrder tcp.rcvAck tcp.rxQueue

/-- The first packet of the queue lies behind a gap. -/
def HeadAhead (tcp : TcpConnection) : Prop := ∀ q ∈ tcp.rxQueue.head?, 0 < tcpCmp q.seq tcp.rcvAck

section

variable {tcp tcp' : TcpConnection}

theorem QueueInv.frame (h : QueueInv tcp) (hframe : RxFrame tcp tcp') : QueueInv tcp' where
  window := hframe.window h.window
  synced hne := by
    rw [hframe.rcvd]
    refine h.synced fun hempty => hne ?_
    have hprefix := hframe.rxQueue
    rw [hempty] at hprefix
    exact prefix_nil.1 hprefix
  order := by
    rw [hframe.rcvAck]
    exact h.order.sublist hframe.rxQueue.sublist

theorem HeadAhead.frame (h : HeadAhead tcp) (hack : tcp'.rcvAck = tcp.rcvAck)
    (hqueue : tcp'.rxQueue <+: tcp.rxQueue) : HeadAhead tcp' := by
  intro q hq
  rw [hack]
  obtain ⟨rest, happend⟩ := hqueue
  apply h q
  rw [← happend, head?_append, Option.mem_def.1 hq]
  rfl

theorem HeadAhead.all (h : HeadAhead tcp) (horder : InOrder tcp.rcvAck tcp.rxQueue) :
    ∀ q ∈ tcp.rxQueue, 0 < tcpCmp q.seq tcp.rcvAck := by
  intro q hmem
  cases hqueue : tcp.rxQueue with
  | nil =>
    rw [hqueue] at hmem
    cases hmem
  | cons first queue =>
    have hsorted := horder.sorted
    have hfirst := h first (by rw [hqueue]; rfl)
    rw [hqueue] at hmem hsorted
    rcases mem_cons.1 hmem with rfl | hmem
    · exact hfirst
    · exact hfirst.trans_le ((pairwise_cons.1 hsorted).1 q hmem)

theorem QueueInv.rxSeq (h : QueueInv tcp) {n : ℕ} (hn : n ≤ 2 ^ 29)
    (hlow : ∀ q ∈ tcp.rxQueue, (n : ℤ) - 2 ^ 29 ≤ tcpCmp q.seq tcp.rcvAck) :
    QueueInv (tcpRxSeq tcp (BitVec.ofNat 32 n)) where
  window := by
    have hwindow := h.window
    simp only [tcpRxSeq]
    split
    · rw [BitVec.toNat_sub]
      omega
    · exact Nat.zero_le _
  synced := h.synced
  order := h.order.advance hn hlow

theorem queueInv_abort (h : tcp.rcvWin.toNat ≤ 2048 * 1024) :
    QueueInv (tcpClose { tcp with state := .closed }) :=
  ⟨h, fun hne => absurd rfl hne, inOrder_nil _⟩

theorem headAhead_abort (tcp : TcpConnection) :
    HeadAhead (tcpClose { tcp with state := .closed }) := by
  intro q hq
  cases hq

theorem rcvAck_tcpClose (tcp : TcpConnection) : (tcpClose tcp).rcvAck = tcp.rcvAck := by
  unfold tcpClose
  simp only
  split
  · exact (rxFrame_tcpCloseSend _).rcvAck
  · rfl

theorem QueueInv.close (h : QueueInv tcp) : QueueInv (tcpClose tcp) := by
  unfold tcpClose
  simp only
  split
  · refine QueueInv.frame ?_ (rxFrame_tcpCloseSend _)
    exact ⟨h.window, h.synced, h.order⟩
  · exact ⟨h.window, fun hne => absurd rfl hne, inOrder_nil _⟩

/-- **The SYN**: before the first one nothing is queued. -/
theorem QueueInv.rxSyn (h : QueueInv tcp) (hahead : HeadAhead tcp) (seq : BitVec 32)
    (options : TcpOptions) : QueueInv (tcpRxSyn tcp seq options) := by
  unfold tcpRxSyn
  cases hsyn : tcp.state.rcvd.syn with
  | false =>
    have hempty : tcp.rxQueue = [] := by
      by_contra hne
      rw [h.synced hne] at hsyn
      cases hsyn
    have hstart : QueueInv (tcpSynchronise tcp seq options) := by
      refine ⟨h.window, fun hne => absurd hempty hne, ?_⟩
      simp only [tcpSynchronise, hempty]
      exact inOrder_nil _
    simp only [Bool.false_eq_true, if_false]
    split
    · exact hstart
    · have hnext := @QueueInv.rxSeq _ hstart 1 (by norm_num) (by
        simp only [tcpSynchronise, hempty]
        exact forall_mem_nil _)
      exact ⟨hnext.window, fun _ => rfl, hnext.order⟩
  | true =>
    simp only [if_true]
    split
    · exact h
    · have hnext := @QueueInv.rxSeq _ h 1 (by norm_num) fun q hmem => by
        have hq := hahead.all h.order q hmem
        omega
      exact ⟨hnext.window, fun _ => rfl, hnext.order⟩

/-- **What is enqueued** lies inside the window or reaches `rcv_ack`. -/
theorem QueueInv.enqueue (h : QueueInv tcp) (seq : BitVec 32) (fin : Bool) {data : Bytes}
    (hlen : data.length < 2 ^ 29) : QueueInv (tcpRxEnqueue tcp seq fin data) := by
  unfold tcpRxEnqueue
  simp only
  split
  · exact h
  next hkeep =>
    simp only [not_or, not_not, not_lt] at hkeep
    obtain ⟨hsyn, hwindow, hreach, hne⟩ := hkeep
    have hfin := fin.toNat_le
    have hpos : 0 < data.length + fin.toNat := by
      by_contra hzero
      exact hne (by rw [Nat.eq_zero_of_not_pos hzero]; rfl)
    have hwin := h.window
    -- from the end of the packet back to its start
    have hback : tcpCmp seq tcp.rcvAck =
        tcpCmp (seq + BitVec.ofNat 32 (data.length + fin.toNat)) tcp.rcvAck -
          ((data.length + fin.toNat : ℕ) : ℤ) := by
      have hhigh : 2 * tcpCmp (seq + BitVec.ofNat 32 (data.length + fin.toNat)) tcp.rcvAck < 2 ^ 32 :=
        BitVec.two_mul_toInt_lt
      unfold tcpCmp at hreach hhigh ⊢
      rw [← serialCmp_advance _ _ _ (by omega) (by omega), serialCmp, serialCmp,
        add_sub_add_right_eq_sub]
    have hnear : -2 ^ 29 ≤ tcpCmp seq tcp.rcvAck := by omega
    have hbelow : tcpCmp seq tcp.rcvAck < 2 ^ 21 := by
      have hhigh : 2 * tcpCmp seq tcp.rcvAck < 2 ^ 32 := BitVec.two_mul_toInt_lt
      unfold tcpCmp at hwindow hnear hhigh ⊢
      have hedge := serialCmp_advance tcp.rcvAck seq tcp.rcvWin.toNat (by omega) (by omega)
      rw [BitVec.ofNat_toNat, BitVec.setWidth_eq] at hedge
      omega
    exact ⟨hwin, fun _ => hsyn, h.order.insert ⟨rfl, hpos, by unfold seqLen; simp only; omega⟩
      ⟨hnear, hbelow⟩⟩

theorem tcpDeliver_keeps (tcp : TcpConnection) (data : Bytes) (discards : ℕ) :
    (tcpDeliver tcp data discards).rcvAck = tcp.rcvAck ∧
      (tcpDeliver tcp data discards).rcvWin = tcp.rcvWin ∧
      (tcpDeliver tcp data discards).state = tcp.state ∧
      (tcpDeliver tcp data discards).rxQueue <+: tcp.rxQueue := by
  refine ⟨?_, ?_, state_tcpDiscards _ _, rxQueue_tcpDiscards _ _⟩
  all_goals
    obtain ⟨rxQueue, heq, -⟩ := tcpDiscards_eq discards
      { tcp with delivered := if tcp.xferClosed then tcp.delivered else tcp.delivered ++ data }
    rw [tcpDeliver, heq]

/-- **Data** of the packet just taken off the queue, which is kept in sight because
all others lie behind its start. -/
theorem QueueInv.rxData (h : QueueInv tcp) {q : TcpRxQueued}
    (horder : InOrder tcp.rcvAck (q :: tcp.rxQueue)) (hcmp : tcpCmp q.seq tcp.rcvAck ≤ 0)
    (discards : ℕ) :
    QueueInv (tcpRxData tcp q.seq q.data discards) ∧
      InOrder (tcpRxData tcp q.seq q.data discards).rcvAck
        (q :: (tcpRxData tcp q.seq q.data discards).rxQueue) := by
  have hnear := horder.near q mem_cons_self
  have hlen := (horder.taken q mem_cons_self).2.2
  unfold seqLen at hlen
  have hzero : serialCmp tcp.rcvAck tcp.rcvAck = 0 := by
    rw [serialCmp, sub_self]
    rfl
  have halready : ((tcp.rcvAck - q.seq).toNat : ℤ) = -tcpCmp q.seq tcp.rcvAck := by
    unfold tcpCmp at hcmp hnear ⊢
    rw [toNat_sub_eq tcp.rcvAck (by omega) (by omega), hzero, zero_sub]
  unfold tcpRxData
  simp only
  split
  · exact ⟨h, horder⟩
  next hnew =>
    have hdrop : (q.data.drop (tcp.rcvAck - q.seq).toNat).length =
        q.data.length - (tcp.rcvAck - q.seq).toNat := length_drop
    -- the packet and those behind it are left behind by at most its length
    have hlow : ∀ r ∈ q :: tcp.rxQueue,
        ((q.data.drop (tcp.rcvAck - q.seq).toNat).length : ℤ) - 2 ^ 29 ≤
          tcpCmp r.seq tcp.rcvAck := by
      intro r hmem
      have hle : tcpCmp q.seq tcp.rcvAck ≤ tcpCmp r.seq tcp.rcvAck := by
        rcases mem_cons.1 hmem with rfl | hmem
        · exact le_refl _
        · exact (pairwise_cons.1 horder.sorted).1 r hmem
      omega
    have hnext := h.rxSeq (by omega) fun r hmem => hlow r (mem_cons_of_mem _ hmem)
    obtain ⟨hack, hwin, hstate, hqueue⟩ := tcpDeliver_keeps
      (tcpRxSeq tcp (BitVec.ofNat 32 (q.data.drop (tcp.rcvAck - q.seq).toNat).length))
      (q.data.drop (tcp.rcvAck - q.seq).toNat) discards
    refine ⟨⟨hwin ▸ hnext.window, fun hne => ?_, ?_⟩, ?_⟩
    · rw [hstate]
      refine h.synced fun hempty => hne ?_
      rw [show (tcpRxSeq tcp _).rxQueue = [] from hempty] at hqueue
      exact prefix_nil.1 hqueue
    · rw [hack]
      exact hnext.order.sublist hqueue.sublist
    · rw [hack]
      exact (horder.advance (by omega) hlow).sublist (hqueue.sublist.cons_cons q)

/-- **The FIN** of the packet just taken off the queue. -/
theorem QueueInv.rxFin (h : QueueInv tcp) {q : TcpRxQueued}
    (horder : InOrder tcp.rcvAck (q :: tcp.rxQueue)) (hfin : q.fin = true) :
    QueueInv (tcpRxFin tcp (q.seq + BitVec.ofNat 32 q.data.length)) := by
  have hnear := horder.near q mem_cons_self
  have hlen := (horder.taken q mem_cons_self).2.2
  rw [seqLen, hfin, Bool.toNat_true] at hlen
  unfold tcpRxFin
  split
  · exact h
  next hseq =>
    have hstart : tcpCmp q.seq tcp.rcvAck = -q.data.length := by
      have hend : tcpCmp (q.seq + BitVec.ofNat 32 q.data.length) tcp.rcvAck = 0 := by
        rw [not_not.1 hseq, tcpCmp, serialCmp, sub_self]
        rfl
      unfold tcpCmp at hend hnear ⊢
      rw [serialCmp_add _ _ _ (by omega) (by omega)] at hend
      omega
    have hnext := @QueueInv.rxSeq _ h 1 (by norm_num) fun r hmem => by
      have hle := (pairwise_cons.1 horder.sorted).1 r hmem
      omega
    apply QueueInv.close
    exact ⟨hnext.window, hnext.synced, hnext.order⟩

/-- **The queue is processed** up to the first gap. -/
theorem QueueInv.processRxQueue (h : QueueInv tcp) (discards : List ℕ) :
    QueueInv (tcpProcessRxQueue tcp discards) := by
  fun_induction tcpProcessRxQueue tcp discards with
  | case1 => exact h
  | case2 => exact h
  | case3 tcp discards q queue hqueue hcmp ih =>
    apply ih
    have horder := h.order
    rw [hqueue] at horder
    have hrest : QueueInv { tcp with rxQueue := queue } :=
      ⟨h.window, fun _ => h.synced (by rw [hqueue]; exact cons_ne_nil _ _),
        horder.sublist (sublist_cons_self _ _)⟩
    obtain ⟨hdata, hbehind⟩ := hrest.rxData horder (not_lt.1 hcmp) (discards.headD 0)
    unfold tcpProcessQueued
    split
    · next hfin => exact hdata.rxFin hbehind hfin
    · exact hdata

theorem headAhead_tcpProcessRxQueue (tcp : TcpConnection) (discards : List ℕ) :
    HeadAhead (tcpProcessRxQueue tcp discards) := by
  fun_induction tcpProcessRxQueue tcp discards with
  | case1 tcp discards hqueue =>
    intro q hq
    rw [hqueue] at hq
    cases hq
  | case2 tcp discards queued queue hqueue hcmp =>
    intro q hq
    rw [hqueue] at hq
    cases hq
    exact hcmp
  | case3 tcp discards queued queue hqueue hcmp ih => exact ih

/-- The head of the queue lies behind a gap after every event. -/
theorem headAhead_tcpStep (tcp : TcpConnection) (event : TcpEvent) (h : HeadAhead tcp) :
    HeadAhead (tcpStep tcp event) := by
  refine rx_tcpStep (fun h hframe => h.frame hframe.rcvAck hframe.rxQueue) h (headAhead_abort tcp)
    (fun _ => h.frame (rcvAck_tcpClose tcp) (rxQueue_tcpClose tcp)) ?_
  intros
  exact ⟨headAhead_abort _, headAhead_tcpProcessRxQueue _ _⟩

/-- A packet is shorter than half a gibibyte.  The IP layers hand over at most what their
16-bit length and offset fields can describe, which is below `2 ^ 18` bytes. -/
def Carried : TcpEvent → Prop
  | .rx _ packet _ => packet.length < 2 ^ 29
  | _ => True

theorem queueInv_tcpStep (tcp : TcpConnection) (event : TcpEvent) (h : QueueInv tcp)
    (hahead : HeadAhead tcp) (hevent : Carried event) : QueueInv (tcpStep tcp event) := by
  refine rx_tcpStep QueueInv.frame h (queueInv_abort h.window) (fun _ => h.close) ?_
  rintro pshdrCsum packet env segment tcp₁ rfl hparse - hframe
  have hheardSyn : QueueInv (tcpHeardSyn tcp₁ segment) := by
    have hheld := h.frame hframe
    unfold tcpHeardSyn
    split
    · exact hheld.rxSyn (hahead.frame hframe.rcvAck hframe.rxQueue) _ _
    · exact hheld
  have hdata : segment.data.length < 2 ^ 29 := by
    rw [(tcpParse_fields hparse).2.2, length_drop]
    exact (Nat.sub_le _ _).trans_lt hevent
  exact ⟨queueInv_abort hheardSyn.window,
    (hheardSyn.enqueue (contentSeq segment) segment.flags.fin hdata).processRxQueue env.discards⟩

end

/-- **Selective acknowledgements.**  In every state that a connection can reach, the blocks that
`tcp_sack` makes for any sequence number are not empty, lie behind `rcv_ack`, hold only numbers of
packets in the receive queue and all those next to each other, and have none in common. -/
theorem tcp_sack_correct (localPort mtu : ℕ) (sndSeq : BitVec 32) (events : List TcpEvent)
    (hevents : ∀ event ∈ events, Carried event) (seq : BitVec 32) :
    let tcp := run tcpStep (tcpOpen localPort mtu sndSeq) events
    SackCorrect tcp (tcpSack tcp seq) := by
  intro tcp
  have hstep : ∀ (tcp : TcpConnection) (event : TcpEvent), QueueInv tcp ∧ HeadAhead tcp →
      Carried event → QueueInv (tcpStep tcp event) ∧ HeadAhead (tcpStep tcp event) :=
    fun tcp event h hevent =>
      ⟨queueInv_tcpStep tcp event h.1 h.2 hevent, headAhead_tcpStep tcp event h.2⟩
  have hopen : QueueInv (tcpOpen localPort mtu sndSeq) ∧ HeadAhead (tcpOpen localPort mtu sndSeq) :=
    ⟨⟨Nat.zero_le _, fun hne => absurd rfl hne, inOrder_nil _⟩, fun q hq => by cases hq⟩
  have hinv : QueueInv tcp ∧ HeadAhead tcp :=
    run_invariant hstep hopen (meets_of_forall (fun event hmem _ => hevents event hmem) _)
  have hahead := hinv.2.all hinv.1.order
  have hfirst : (∀ block ∈ (tcpSackBlock tcp seq).toList, RunBlock tcp.rcvAck tcp.rxQueue block) ∧
      (tcpSackBlock tcp seq).toList.Pairwise fun block block' => block.left ≠ block'.left := by
    cases hblock : tcpSackBlock tcp seq with
    | none => exact ⟨forall_mem_nil _, List.Pairwise.nil⟩
    | some block =>
      refine ⟨fun block' hmem => ?_, pairwise_singleton _ _⟩
      rw [mem_singleton.1 hmem]
      exact runBlock_tcpSackBlock hinv.1.order hahead hblock
  obtain ⟨hruns, hdistinct⟩ := runBlocks_tcpSackLoop hinv.1.order hahead hfirst
  exact sackCorrect_of_runs hinv.1.order hahead hruns hdistinct

/-- The exchange of `wrappingEvents`, up to the packet that leaves a gap. -/
theorem tcp_sack_correct_wrapping :
    let tcp := run tcpStep (tcpOpen 1024 1500 0) (wrappingEvents.take 5)
    tcpSack tcp 1 = [⟨1, 4⟩] ∧ SackCorrect tcp (tcpSack tcp 1) := by
  refine ⟨by decide +kernel, tcp_sack_correct 1024 1500 0 (wrappingEvents.take 5) ?_ 1⟩
  intro event hmem
  cases event with
  | rx pshdrCsum packet env =>
    have hshort : ∀ event ∈ wrappingEvents.take 5, ∀ pshdrCsum packet env,
        event = .rx pshdrCsum packet env → packet.length < 2 ^ 29 := by
      simp only [wrappingEvents, take_succ_cons, take_zero, forall_mem_cons]
      refine ⟨?_, ?_, ?_, ?_, ?_, forall_mem_nil _⟩
      all_goals
        intro pshdrCsum packet env heq
        cases heq
      · decide
      · decide
    exact hshort _ hmem pshdrCsum packet env rfl
  | _ => exact trivial

end Ipxe.Analysis
