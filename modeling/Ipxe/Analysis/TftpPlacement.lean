import Ipxe.Analysis.TftpTransfer

/-!
# TFTP data placement

A lock-step server is never ahead of what the client has received, so the client gets the next
block or an earlier one.
-/

namespace Ipxe.Analysis

open Library Model Interface List Option

variable {arch : Platform}

section

variable {transfer : TftpTransfer} {ackLost : Bool} {ack : Option ℕ} {count : ℕ}

@[simp] theorem receiveAck_tftp : (transfer.receiveAck ackLost ack).tftp = transfer.tftp := by
  cases ack with
  | none => rfl
  | some number =>
    simp only [TftpTransfer.receiveAck]
    split_ifs <;> rfl

@[simp] theorem receiveAck_none : transfer.receiveAck ackLost none = transfer := rfl

theorem receiveAck_acked (h : transfer.acked ≤ count) :
    (transfer.receiveAck ackLost (some (count % 2 ^ 16))).acked ≤ count := by
  simp only [TftpTransfer.receiveAck]
  split_ifs with hlost hserving hnext hnegotiated
  · exact h
  · -- the number is not that of the last block again
    have hne : transfer.acked ≠ count := by
      rintro rfl
      omega
    exact Nat.lt_of_le_of_ne h hne
  · exact h
  · exact h
  · exact h

end

/-! ## Transfers -/

/-- While a request is active, it has received nothing yet or the first blocks; once it is done, it has
the file. -/
structure TransferInv (server : TftpServer arch) (transfer : TftpTransfer) : Prop where
  stray : transfer.tftp.stray = false
  placed : Placed server.file transfer.tftp.xfer
  active : transfer.tftp.status = .active →
    (transfer.tftp = {} ∧ transfer.serving = false ∧ transfer.acked = 0) ∨
      ∃ count, Receiving server transfer.tftp count ∧ transfer.acked ≤ count ∧
        transfer.tftp.tsize = server.tsize
  done : transfer.tftp.status = .done → transfer.tftp.xfer.data = server.file.map some

section

variable {server : TftpServer arch} {transfer : TftpTransfer}

theorem negotiated_of_none (h : server.oack = none) :
    server.blksize = tftpDefaultBlksize ∧ server.tsize = 0 := by
  have hsizes := server.negotiated
  rw [h] at hsizes
  obtain ⟨hblksize, htsize⟩ := Prod.mk.inj (Except.ok.inj hsizes)
  exact ⟨hblksize.symm, htsize.symm⟩

theorem transferInv_start (server : TftpServer arch) : TransferInv server server.start := by
  refine ⟨rfl, ⟨nofun, Nat.zero_le _⟩, fun _ => ?_, nofun⟩
  cases hoack : server.oack with
  | some options => exact .inl ⟨rfl, by rw [TftpServer.start, hoack]; rfl, rfl⟩
  | none =>
    obtain ⟨hblksize, htsize⟩ := negotiated_of_none hoack
    exact .inr ⟨0, receiving_zero server hblksize.symm rfl rfl rfl, le_rfl, htsize.symm⟩

variable {received : TftpRequest × Option ℕ}

theorem transferInv_failing {ackLost : Bool} (h : Failing server false received) :
    TransferInv server
      (TftpTransfer.receiveAck { transfer with tftp := received.1 } ackLost received.2) := by
  obtain ⟨rc, hrc⟩ := h.failed
  rw [h.ack, receiveAck_none]
  refine ⟨h.stray, h.placed, fun hactive => ?_, fun hdone => ?_⟩
  · rw [hrc] at hactive
    cases hactive
  · rw [hrc] at hdone
    cases hdone

theorem transferInv_acknowledging {ackLost : Bool} {count : ℕ}
    (h : Acknowledging server false server.tsize count received) (hacked : transfer.acked ≤ count)
    (hdone : received.1.status = .done → received.1.xfer.data = server.file.map some) :
    TransferInv server
      (TftpTransfer.receiveAck { transfer with tftp := received.1 } ackLost received.2) := by
  rw [h.ack]
  refine ⟨?_, ?_, fun _ => .inr ⟨count, ?_, receiveAck_acked hacked, ?_⟩, ?_⟩
  all_goals rw [receiveAck_tftp]
  · exact h.stray
  · exact h.receiving.placed
  · exact h.receiving
  · exact h.tsize
  · exact hdone

/-- What the OACK finds: a request that has received nothing, or one that knows the sizes. -/
theorem TransferInv.negotiating (h : TransferInv server transfer)
    (hactive : transfer.tftp.status = .active) :
    ∃ count, Receiving server { transfer.tftp with blksize := server.blksize } count ∧
      transfer.acked ≤ count ∧
      tftpProcessOptions arch (transfer.tftp.blksize, transfer.tftp.tsize)
        (server.oack.getD []) = .ok (server.blksize, server.tsize) := by
  rcases h.active hactive with ⟨hfresh, -, hacked⟩ | ⟨count, hreceiving, hacked, htsize⟩
  · rw [hfresh]
    exact ⟨0, receiving_zero server rfl rfl rfl rfl, hacked.le, server.negotiated⟩
  · refine ⟨count, ?_, hacked, ?_⟩
    · rw [← hreceiving.blksize]
      exact hreceiving
    · rw [hreceiving.blksize, htsize]
      exact (setsSizes_tftpProcessOptions _).again server.negotiated

theorem TransferInv.oack (h : TransferInv server transfer) (hactive : transfer.tftp.status = .active)
    (allocs : TftpAllocations) (ackLost : Bool)
    (hsmall : server.tsize / server.blksize + arch.sizeBits < 2 ^ 32) :
    TransferInv server (server.step transfer (.oack allocs ackLost)) := by
  obtain ⟨count, hreceiving, hacked, hsizes⟩ := h.negotiating hactive
  have hstray := h.stray
  unfold TftpServer.step
  rw [if_neg (not_not.2 hactive)]
  rcases hreceiving.rxOack allocs hsizes hsmall with ⟨hack, hstatus⟩ | hfail
  · rw [hstray] at hack
    refine transferInv_acknowledging hack hacked fun hdone => ?_
    rw [hstatus, hactive] at hdone
    cases hdone
  · rw [hstray] at hfail
    exact transferInv_failing hfail

theorem le_countAfter (count block : ℕ) : count ≤ countAfter count block := by
  unfold countAfter
  split_ifs <;> omega

theorem countAfter_pos {count block : ℕ} (hblock : block ≤ count) : 0 < countAfter count block := by
  unfold countAfter
  split_ifs <;> omega

theorem TransferInv.data (h : TransferInv server transfer) (hactive : transfer.tftp.status = .active)
    {block : ℕ} (allocs : TftpAllocations) (ackLost : Bool) (hserving : transfer.serving = true)
    (hblock : block ≤ transfer.acked) (hlast : block ≤ server.lastBlock)
    (hcopes : server.CopesWith transfer.tftp.bitmap.firstGap block) :
    TransferInv server (server.step transfer (.data block allocs ackLost)) := by
  rcases h.active hactive with ⟨-, hidle, -⟩ | ⟨count, hreceiving, hacked, htsize⟩
  · rw [hidle] at hserving
    cases hserving
  · have hstray := h.stray
    have hnext : block ≤ count := hblock.trans hacked
    rw [hreceiving.received.gap] at hcopes
    unfold TftpServer.step
    rw [if_neg (not_not.2 hactive)]
    rcases hreceiving.rxData allocs hnext hlast hcopes with ⟨hack, hcomplete⟩ | ⟨hfail, -⟩
    · rw [hstray, htsize] at hack
      refine transferInv_acknowledging hack (hacked.trans (le_countAfter count block)) fun hdone => ?_
      refine (hack.receiving.full (countAfter_pos hnext) ?_).2
      by_contra hgaps
      rw [CompletesIfFull, if_neg hgaps, hactive] at hcomplete
      rw [hcomplete] at hdone
      cases hdone
    · rw [hstray] at hfail
      exact transferInv_failing hfail

theorem TransferInv.timeout (h : TransferInv server transfer)
    (hactive : transfer.tftp.status = .active) (fail ackLost : Bool) :
    TransferInv server (server.step transfer (.timeout fail ackLost)) := by
  unfold TftpServer.step
  rw [if_neg (not_not.2 hactive)]
  cases fail with
  | true => exact transferInv_failing ⟨⟨_, rfl⟩, rfl, h.stray, h.placed⟩
  | false =>
    simp only [tftpTimerExpired]
    cases hpeer : transfer.tftp.peer with
    | false =>
      rw [tftpSendPacket, hpeer]
      exact h
    | true =>
      rcases h.active hactive with ⟨hfresh, -, -⟩ | ⟨count, hreceiving, hacked, htsize⟩
      · rw [hfresh] at hpeer
        cases hpeer
      · have hack : Acknowledging server false server.tsize count
            (transfer.tftp, tftpSendPacket transfer.tftp) := by
          refine ⟨hreceiving, ?_, h.stray, htsize⟩
          rw [tftpSendPacket, hpeer, if_pos rfl, hreceiving.received.gap]
        exact transferInv_acknowledging hack hacked h.done

theorem TransferInv.step (h : TransferInv server transfer) {event : TftpEvent}
    (hlockStep : server.LockStep transfer event) (hregular : server.Regular transfer event) :
    TransferInv server (server.step transfer event) := by
  by_cases hactive : transfer.tftp.status = .active
  · cases event with
    | oack allocs ackLost => exact h.oack hactive allocs ackLost hregular
    | data block allocs ackLost =>
      obtain ⟨hserving, hblock, hlast⟩ := hlockStep
      exact h.data hactive allocs ackLost hserving hblock hlast (hregular hactive)
    | error errcode =>
      unfold TftpServer.step
      rw [if_neg (not_not.2 hactive)]
      exact ⟨h.stray, h.placed, nofun, nofun⟩
    | timeout fail ackLost => exact h.timeout hactive fail ackLost
  · unfold TftpServer.step
    rw [if_pos hactive]
    exact h

end

/-- **TFTP data placement.**  In every run with a lock-step server in which the client can cope with
every block that comes while it is active, nothing is written outside of the bitmap, every byte
held is at its place in the file, and a request that is done has delivered the whole file. -/
theorem tftp_data_placement (arch : Platform) (server : TftpServer arch)
    (events : List TftpEvent) (hlockStep : Meets server.step server.LockStep server.start events)
    (hregular : Meets server.step server.Regular server.start events) :
    (run server.step server.start events).tftp.stray = false ∧
      (∀ (p : ℕ) (c : UInt8),
        (run server.step server.start events).tftp.xfer.data[p]? = some (some c) →
          server.file[p]? = some c) ∧
      ((run server.step server.start events).tftp.status = .done →
        (run server.step server.start events).tftp.xfer.data = server.file.map some) := by
  have hinv : TransferInv server (run server.step server.start events) :=
    run_invariant (fun _ _ h hcond => h.step hcond.1 hcond.2) (transferInv_start server)
      (hlockStep.and hregular)
  refine ⟨hinv.stray, ?_, hinv.done⟩
  intro p c hc
  apply hinv.placed.bytes p c
  rw [held, hc]
  rfl

/-- A file of one block, from a server without options. -/
def shortFileServer : TftpServer .x64 where
  file := [1, 2, 3]
  oack := none
  blksize := 512
  tsize := 0
  negotiated := rfl
  announced := Nat.zero_le _

theorem tftp_data_placement_short :
    (run shortFileServer.step shortFileServer.start [.data 0 {} true, .timeout false false]).tftp.xfer.data =
      [some 1, some 2, some 3] := by
  have hplaced := tftp_data_placement .x64 shortFileServer [.data 0 {} true, .timeout false false]
    ⟨⟨by decide, by decide, by decide⟩, trivial, trivial⟩
    ⟨fun _ => ⟨by decide, by decide, by decide, by decide, by decide⟩, trivial, trivial⟩
  exact hplaced.2.2 (by decide)

/-- A transfer in which the first blocks have come and been acknowledged. -/
structure InStep (server : TftpServer arch) (transfer : TftpTransfer) (count : ℕ) : Prop where
  active : transfer.tftp.status = .active
  serving : transfer.serving = true
  acked : transfer.acked = count
  receiving : Receiving server transfer.tftp count

/-- The first blocks, one after the other, with nothing lost.  There may be many: it is not to be
evaluated. -/
@[irreducible] def inOrder (count : ℕ) : List TftpEvent := (List.range count).map fun block => .data block {} false

section

variable {server : TftpServer arch} {transfer : TftpTransfer} {count block : ℕ}

theorem length_block_of_lt (h : block < server.lastBlock) :
    (server.block block).length = server.blksize := by
  have hnext := mul_blksize_le (Nat.succ_le_of_lt h)
  rw [Nat.succ_eq_add_one, add_mul] at hnext
  rw [TftpServer.block, length_take, length_drop]
  omega

theorem copesWith_next (hblksize : 0 < server.blksize) (hlast : block < server.lastBlock)
    (hoffset : block * server.blksize < 2 ^ 32) (hfits : server.file.length < 2 ^ arch.sizeBits)
    (hsmall : server.lastBlock + arch.sizeBits < 2 ^ 32) : server.CopesWith block block := by
  have hlen := length_block_of_lt hlast
  have hend := block_end hlast.le
  refine ⟨rfl, ?_, hoffset, ?_, ?_⟩
  · omega
  · rw [hend]
    exact (min_le_right _ _).trans_lt hfits
  · have hle : (block * server.blksize + (server.block block).length) / server.blksize ≤
        server.lastBlock := by
      rw [hend]
      exact Nat.div_le_div_right (min_le_right _ _)
    omega

theorem InStep.data (h : InStep server transfer count) (hlast : count < server.lastBlock)
    (hcopes : server.CopesWith count count) :
    InStep server (server.step transfer (.data count {} false)) (count + 1) := by
  have hcount : countAfter count count = count + 1 := if_pos rfl
  unfold TftpServer.step
  rw [if_neg (not_not.2 h.active)]
  rcases h.receiving.rxData {} le_rfl hlast.le hcopes with ⟨hack, hcomplete⟩ | ⟨-, hall⟩
  · rw [hcount] at hack
    have hgaps : bitmapFull (tftpRxData arch {} transfer.tftp ((count + 1) % 2 ^ 16)
        (server.block count)).1.bitmap ≠ true := by
      intro hfull
      have hend := (hack.receiving.full (Nat.succ_pos _) hfull).1
      omega
    rw [CompletesIfFull, if_neg hgaps, h.active] at hcomplete
    simp only [hack.ack, TftpTransfer.receiveAck, h.serving, h.acked, if_true]
    exact ⟨hcomplete, rfl, rfl, hack.receiving⟩
  · exact absurd rfl hall

theorem InStep.run_inOrder (h : InStep server transfer 0) (hcount : count ≤ server.lastBlock)
    (hcopes : ∀ block < count, server.CopesWith block block) :
    InStep server (run server.step transfer (inOrder count)) count ∧
      Meets server.step server.LockStep transfer (inOrder count) := by
  unfold inOrder
  induction count with
  | zero => exact ⟨h, trivial⟩
  | succ count ih =>
    obtain ⟨hstep, hmeets⟩ := ih (by omega) fun block hblock => hcopes block (by omega)
    rw [range_succ, map_append, run_append, meets_append]
    refine ⟨hstep.data hcount (hcopes count (Nat.lt_succ_self _)), hmeets, ?_, trivial⟩
    exact ⟨hstep.serving, hstep.acked.ge, by omega⟩

theorem InStep.run_inOrder_data (h : InStep server transfer 0) (hcount : count ≤ server.lastBlock)
    (hcopes : ∀ block < count, server.CopesWith block block) (hblock : block ≤ count) :
    Meets server.step server.LockStep transfer (inOrder count ++ [.data block {} false]) ∧
      ∃ next, InStep server next count ∧
        run server.step transfer (inOrder count ++ [.data block {} false]) =
          server.step next (.data block {} false) := by
  obtain ⟨hstep, hmeets⟩ := h.run_inOrder hcount hcopes
  refine ⟨?_, _, hstep, run_append _ _ _ _⟩
  rw [meets_append]
  refine ⟨hmeets, ⟨hstep.serving, ?_, hblock.trans hcount⟩, trivial⟩
  rw [hstep.acked]
  exact hblock

end

/-! ## Blocks that are misplaced -/

section

variable {server : TftpServer arch} {tftp : TftpRequest} {block : ℕ} {data : Bytes}

theorem tftpMarkBlock_xfer : (tftpMarkBlock arch tftp block).1.xfer = tftp.xfer := by
  simp only [tftpMarkBlock]
  split_ifs <;> rfl

/-- **The data of a block goes to its 32-bit offset.** -/
theorem tftpRxBlock_held (hblksize : tftp.blksize ≠ 0) (hdata : data.length ≤ tftp.blksize)
    (hfits : block * tftp.blksize % 2 ^ 32 + data.length < 2 ^ arch.sizeBits) {p : ℕ}
    (hp : p < data.length) :
    held (tftpRxBlock arch {} tftp block data).1.xfer (block * tftp.blksize % 2 ^ 32 + p) =
      data[p]? := by
  obtain ⟨filled, hdeliver⟩ := @xferbufDeliver_allocated arch tftp.xfer _ _ hfits
  have hheld := (xferbufDeliver_spec hfits hdeliver).1
  have hroom := @tftpPresize_allocated arch { tftp with xfer := filled }
    ((block * tftp.blksize % 2 ^ 32 + data.length) % 2 ^ arch.sizeBits) hblksize
  have hkept := (@tftpPresize_presized arch {} { tftp with xfer := filled }
    ((block * tftp.blksize % 2 ^ 32 + data.length) % 2 ^ arch.sizeBits)).held
  unfold tftpRxBlock
  simp only [if_neg (not_lt.2 hdata), hdeliver]
  revert hroom hkept
  generalize tftpPresize arch {} { tftp with xfer := filled }
    ((block * tftp.blksize % 2 ^ 32 + data.length) % 2 ^ arch.sizeBits) = sized
  intro hroom hkept
  obtain ⟨sized, rc⟩ := sized
  cases hroom
  rw [tftpMarkBlock_xfer, hkept, hheld, if_pos (by omega), Nat.add_sub_cancel_left]

theorem step_data_tftp {serving : Bool} {acked number : ℕ} (hactive : tftp.status = .active)
    (hnumber : tftpBlock { tftp with peer := true } ((block + 1) % 2 ^ 16) = some number) :
    (server.step ⟨tftp, serving, acked⟩ (.data block {} false)).tftp =
      (tftpRxBlock arch {} { tftp with peer := true } number (server.block block)).1 := by
  unfold TftpServer.step
  rw [if_neg (not_not.2 hactive)]
  simp only [receiveAck_tftp, tftpRxData, hnumber]

theorem Receiving.bitmapFull_last (h : Receiving server tftp server.lastBlock)
    (hknown : tftp.filesize ≠ 0) :
    bitmapFull (bitmapSet arch tftp.bitmap server.lastBlock) = true := by
  have hpositive := h.positive hknown
  have hblocks : tftp.filesize / server.blksize = server.lastBlock := by
    apply le_antisymm (Nat.div_le_div_right h.bounded)
    have henough := h.enough
    rw [min_eq_left (mul_blksize_le le_rfl)] at henough
    exact (Nat.le_div_iff_mul_le hpositive).2 henough
  have hlen : tftp.bitmap.length = server.lastBlock + 1 := by
    rw [h.sized, if_neg hknown, hblocks]
  have hset := h.received.set (hlen ▸ Nat.lt_succ_self _) le_rfl
  rw [bitmapFull, hset.gap, if_pos rfl, bitmapSet_length, hlen]
  exact decide_eq_true rfl

/-- **A last block whose offset goes round** completes the request all the same. -/
theorem Receiving.rxBlock_last (h : Receiving server tftp server.lastBlock)
    (hdata : data.length ≤ server.blksize) (hpos : 0 < server.lastBlock * server.blksize)
    (hround : server.lastBlock * server.blksize % 2 ^ 32 + data.length ≤
      server.lastBlock * server.blksize)
    (hfits : server.lastBlock * server.blksize % 2 ^ 32 + data.length < 2 ^ arch.sizeBits) :
    (tftpRxBlock arch {} tftp server.lastBlock data).1.status = .done := by
  obtain ⟨filled, hdeliver⟩ := @xferbufDeliver_allocated arch tftp.xfer _ _ hfits
  have henough := h.enough
  rw [min_eq_left (mul_blksize_le le_rfl)] at henough
  have hsized : tftpPresize arch {} { tftp with xfer := filled }
      (server.lastBlock * server.blksize % 2 ^ 32 + data.length) =
        ({ tftp with xfer := filled }, none) := by
    exact if_pos (hround.trans henough)
  have hoffset : server.lastBlock * tftp.blksize % 2 ^ 32 =
      server.lastBlock * server.blksize % 2 ^ 32 := by
    rw [h.blksize]
  have hshort : ¬tftp.blksize < data.length := by
    rw [h.blksize]
    exact not_lt.2 hdata
  unfold tftpRxBlock
  simp only [hoffset, if_neg hshort, hdeliver, Nat.mod_eq_of_lt hfits, hsized, tftpMarkBlock,
    h.bitmapFull_last (by omega)]
  rfl

end

def fullBlocksServer : TftpServer .x64 where
  file := List.replicate (2 ^ 16 * 512) 0
  oack := none
  blksize := 512
  tsize := 0
  negotiated := rfl
  announced := Nat.zero_le _

/-- A file whose last block begins behind 4 GiB. -/
def largeFileServer : TftpServer .x64 where
  file := List.replicate (65609 * 65464) 0 ++ [1]
  oack := some [.blksize [0x36, 0x35, 0x34, 0x36, 0x34]]
  blksize := 65464
  tsize := 0
  negotiated := by decide
  announced := Nat.zero_le _

def emptyFileServer : TftpServer .x64 where
  file := []
  oack := none
  blksize := 512
  tsize := 0
  negotiated := rfl
  announced := Nat.zero_le _

section

theorem length_fullBlocks : fullBlocksServer.file.length = 2 ^ 16 * 512 := length_replicate

theorem lastBlock_fullBlocks : fullBlocksServer.lastBlock = 65536 := by
  rw [TftpServer.lastBlock, length_fullBlocks]
  rfl

theorem inStep_fullBlocks : InStep fullBlocksServer fullBlocksServer.start 0 :=
  ⟨rfl, rfl, rfl, receiving_zero _ rfl rfl rfl rfl⟩

theorem copesWith_fullBlocks {block : ℕ} (hblock : block < 65535) :
    fullBlocksServer.CopesWith block block := by
  have hoffset : block * 512 < 2 ^ 32 := by omega
  apply copesWith_next
  · decide
  · rw [lastBlock_fullBlocks]
    omega
  · exact hoffset
  · rw [length_fullBlocks]
    decide
  · rw [lastBlock_fullBlocks]
    decide

theorem tftpBlock_repeated {tftp : TftpRequest} (hgap : tftp.bitmap.firstGap = 65535) :
    tftpBlock tftp 65535 = some 131070 := by
  unfold tftpBlock
  rw [hgap]
  rfl

variable {transfer : TftpTransfer}

/-- **A repeated block before the numbers go round** is taken for one of the next round. -/
theorem InStep.data_repeated (h : InStep fullBlocksServer transfer 65535) :
    (fullBlocksServer.step transfer (.data 65534 {} false)).tftp.xfer.data[67107840]? =
      some (some 0) := by
  obtain ⟨tftp, serving, acked⟩ := transfer
  have hstep := @step_data_tftp .x64 fullBlocksServer tftp 65534 serving acked 131070 h.active
    (tftpBlock_repeated h.receiving.withPeer.received.gap)
  have hblksize : tftp.blksize = 512 := h.receiving.blksize
  have hlen : (fullBlocksServer.block 65534).length = 512 := by
    apply length_block_of_lt
    rw [lastBlock_fullBlocks]
    decide
  have hzero : (fullBlocksServer.block 65534)[0]? = some 0 := by
    rw [TftpServer.block, getElem?_take_of_lt (by decide), getElem?_drop,
      fullBlocksServer, getElem?_replicate, if_pos (by decide)]
  have hoffset : 131070 * tftp.blksize % 2 ^ 32 = 67107840 := by
    rw [hblksize]
    rfl
  have hheld := @tftpRxBlock_held .x64 { tftp with peer := true } 131070
    (fullBlocksServer.block 65534) (by rw [hblksize]; decide) (by rw [hlen, hblksize])
    (by rw [hlen, hblksize]; decide) 0 (by rw [hlen]; decide)
  rw [hzero, hoffset, held, join_eq_some_iff] at hheld
  rw [hstep]
  exact hheld

theorem length_largeFile : largeFileServer.file.length = 65609 * 65464 + 1 := by
  rw [largeFileServer, length_append, length_replicate]
  rfl

theorem lastBlock_largeFile : largeFileServer.lastBlock = 65609 := by
  rw [TftpServer.lastBlock, length_largeFile]
  rfl

theorem inStep_largeFile :
    InStep largeFileServer (largeFileServer.step largeFileServer.start (.oack {} false)) 0 := by
  exact ⟨rfl, rfl, rfl, receiving_zero _ rfl rfl rfl rfl⟩

theorem copesWith_largeFile {block : ℕ} (hblock : block < 65609) :
    largeFileServer.CopesWith block block := by
  have hoffset : block * 65464 < 2 ^ 32 := by omega
  apply copesWith_next
  · decide
  · rw [lastBlock_largeFile]
    exact hblock
  · exact hoffset
  · rw [length_largeFile]
    decide
  · rw [lastBlock_largeFile]
    decide

theorem tftpBlock_large {tftp : TftpRequest} (hgap : tftp.bitmap.firstGap = 65609) :
    tftpBlock tftp 74 = some 65609 := by
  unfold tftpBlock
  rw [hgap]
  rfl

/-- **A last block behind 4 GiB** overwrites data near the beginning, and the request is
done. -/
theorem InStep.data_large (h : InStep largeFileServer transfer 65609) :
    (largeFileServer.step transfer (.data 65609 {} false)).tftp.status = .done ∧
      (largeFileServer.step transfer (.data 65609 {} false)).tftp.xfer.data[60280]? =
        some (some 1) := by
  obtain ⟨tftp, serving, acked⟩ := transfer
  have hreceiving : Receiving largeFileServer { tftp with peer := true }
      largeFileServer.lastBlock := by
    rw [lastBlock_largeFile]
    exact h.receiving.withPeer
  have hstep := @step_data_tftp .x64 largeFileServer tftp 65609 serving acked 65609 h.active
    (tftpBlock_large h.receiving.withPeer.received.gap)
  have hblksize : tftp.blksize = 65464 := h.receiving.blksize
  have hblock : largeFileServer.block 65609 = [1] := by
    have hzeros : (replicate (65609 * 65464) (0 : UInt8)).length = 65609 * 65464 := length_replicate
    have hdrop : (replicate (65609 * 65464) (0 : UInt8) ++ [1]).drop (65609 * 65464) = [1] :=
      drop_left' hzeros
    exact congrArg (List.take 65464) hdrop
  have hoffset : 65609 * tftp.blksize % 2 ^ 32 = 60280 := by
    rw [hblksize]
    rfl
  rw [hstep, hblock]
  refine ⟨?_, ?_⟩
  · have hdone := @Receiving.rxBlock_last .x64 largeFileServer _ [1] hreceiving
    rw [lastBlock_largeFile] at hdone
    exact hdone (by decide) (by decide) (by decide) (by decide)
  · have hheld := @tftpRxBlock_held .x64 { tftp with peer := true } 65609 [1]
      (by rw [hblksize]; decide) (by rw [hblksize]; decide) (by rw [hblksize]; decide) 0 (by decide)
    rw [hoffset, held] at hheld
    exact join_eq_some_iff.1 hheld

end

/-- The client takes a repeated block for one of the next round, delivers data behind 4 GiB near the
beginning and calls it success, and marks the block of an empty file where it has no bitmap. -/
theorem tftp_data_misplaced :
    (Meets fullBlocksServer.step fullBlocksServer.LockStep fullBlocksServer.start
        (inOrder 65535 ++ [.data 65534 {} false]) ∧
      (run fullBlocksServer.step fullBlocksServer.start
        (inOrder 65535 ++ [.data 65534 {} false])).tftp.xfer.data[67107840]? = some (some 0) ∧
      fullBlocksServer.file[67107840]? = none) ∧
    (Meets largeFileServer.step largeFileServer.LockStep largeFileServer.start
        (.oack {} false :: (inOrder 65609 ++ [.data 65609 {} false])) ∧
      (run largeFileServer.step largeFileServer.start
        (.oack {} false :: (inOrder 65609 ++ [.data 65609 {} false]))).tftp.status = .done ∧
      (run largeFileServer.step largeFileServer.start
        (.oack {} false :: (inOrder 65609 ++ [.data 65609 {} false]))).tftp.xfer.data[60280]? =
          some (some 1) ∧
      largeFileServer.file[60280]? = some 0) ∧
    Meets emptyFileServer.step emptyFileServer.LockStep emptyFileServer.start [.data 0 {} false] ∧
      (run emptyFileServer.step emptyFileServer.start [.data 0 {} false]).tftp.stray = true := by
  obtain ⟨hmeets, next, hnext, hrun⟩ := @InStep.run_inOrder_data _ _ _ 65535 65534
    inStep_fullBlocks (by rw [lastBlock_fullBlocks]; decide)
    (fun _ hblock => copesWith_fullBlocks hblock) (by decide)
  obtain ⟨hmeetsLarge, nextLarge, hnextLarge, hrunLarge⟩ := inStep_largeFile.run_inOrder_data
    lastBlock_largeFile.ge (fun _ hblock => copesWith_largeFile hblock) le_rfl
  have hlarge := hnextLarge.data_large
  rw [hrun, run_cons, hrunLarge, meets_cons]
  refine ⟨⟨hmeets, hnext.data_repeated, ?_⟩, ⟨⟨rfl, hmeetsLarge⟩, hlarge.1, hlarge.2, ?_⟩,
    ⟨⟨rfl, le_rfl, Nat.zero_le _⟩, trivial⟩, by decide⟩
  · rw [getElem?_eq_none]
    rw [length_fullBlocks]
    decide
  · unfold largeFileServer
    rw [getElem?_append_left, getElem?_replicate]
    · exact if_pos (by decide)
    · rw [length_replicate]
      decide

end Ipxe.Analysis
