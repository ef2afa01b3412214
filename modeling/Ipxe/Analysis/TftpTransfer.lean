import Ipxe.Analysis.TftpBitmap
import Ipxe.Interface.TftpTransfer

/-!
# Receiving TFTP blocks

A request that has received the first blocks of a file holds their data at its place.  The client has
the block number of every packet right as long as it has the same high bits as that of the first
missing block.
-/

namespace Ipxe.Analysis

open Library Model Interface List Option

variable {arch : Platform} {xfer : XferBuffer} {offset : ℕ} {data : Bytes}

/-- What a buffer holds at a position. -/
def held (xfer : XferBuffer) (p : ℕ) : Option UInt8 := xfer.data[p]?.join

theorem xferbufEnsureSize_spec {allocated : Bool} {larger : XferBuffer} {len : ℕ}
    (h : xferbufEnsureSize allocated xfer len = .ok larger) :
    (∀ p, held larger p = held xfer p) ∧ larger.data.length = max xfer.data.length len := by
  unfold xferbufEnsureSize at h
  split_ifs at h with hroom halloc
  · cases h
    exact ⟨fun _ => rfl, (max_eq_left hroom).symm⟩
  · cases h
    refine ⟨fun p => ?_, ?_⟩
    · unfold held
      rw [getElem?_append]
      split_ifs with hp
      · rfl
      · rw [getElem?_eq_none (show xfer.data.length ≤ p by omega), getElem?_replicate]
        split_ifs <;> rfl
    · simp only [length_append, length_replicate]
      omega

theorem join_getElem?_splice {old : List (Option UInt8)} (hroom : offset + data.length ≤ old.length)
    (p : ℕ) :
    (old.take offset ++ data.map some ++ old.drop (offset + data.length))[p]?.join =
      if offset ≤ p ∧ p < offset + data.length then data[p - offset]? else old[p]?.join := by
  have hlen : (old.take offset).length = offset := by
    rw [length_take]
    omega
  rw [append_assoc, getElem?_append, hlen]
  split_ifs with hbefore hin hin
  · omega
  · rw [getElem?_take_of_lt hbefore]
  · rw [getElem?_append_left (by rw [length_map]; omega), getElem?_map]
    cases data[p - offset]? <;> rfl
  · rw [getElem?_append_right (by rw [length_map]; omega), length_map, getElem?_drop]
    congr 2
    omega

/-- **What is delivered at an offset is held there.** -/
theorem xferbufDeliver_spec {allocated : Bool} {filled : XferBuffer}
    (hfits : offset + data.length < 2 ^ arch.sizeBits)
    (h : xferbufDeliver arch allocated xfer offset data = .ok filled) :
    (∀ p, held filled p =
      if offset ≤ p ∧ p < offset + data.length then data[p - offset]? else held xfer p) ∧
      filled.data.length = max xfer.data.length (offset + data.length) := by
  unfold xferbufDeliver at h
  simp only [xferbufWrite, Nat.mod_eq_of_lt (show offset < 2 ^ arch.sizeBits by omega),
    Nat.mod_eq_of_lt hfits] at h
  rw [if_neg (by omega)] at h
  cases hlarger : xferbufEnsureSize allocated xfer (offset + data.length) with
  | error rc =>
    rw [hlarger] at h
    cases h
  | ok larger =>
    rw [hlarger] at h
    obtain ⟨hheld, hlen⟩ := xferbufEnsureSize_spec hlarger
    have hroom : offset + data.length ≤ larger.data.length := hlen ▸ le_max_right _ _
    cases h
    refine ⟨fun p => ?_, ?_⟩
    · rw [← hheld p]
      exact join_getElem?_splice hroom p
    · simp only [length_append, length_take, length_map, length_drop]
      omega

theorem xferSeek_spec (allocated : Bool) (xfer : XferBuffer) (offset : ℕ) :
    (∀ p, held (xferSeek arch allocated xfer offset) p = held xfer p) ∧
      (xferSeek arch allocated xfer offset).data.length ≤ max xfer.data.length offset := by
  have hmod : offset % 2 ^ arch.sizeBits < 2 ^ arch.sizeBits := Nat.mod_lt _ (Nat.two_pow_pos _)
  have hle := Nat.mod_le offset (2 ^ arch.sizeBits)
  unfold xferSeek
  cases hdeliver : xferbufDeliver arch allocated xfer offset [] with
  | error rc => exact ⟨fun _ => rfl, le_max_left _ _⟩
  | ok filled =>
    have hreduced : xferbufDeliver arch allocated xfer (offset % 2 ^ arch.sizeBits) [] =
        .ok filled := by
      rw [← hdeliver, xferbufDeliver, xferbufDeliver, Nat.mod_mod]
    obtain ⟨hheld, hlen⟩ := xferbufDeliver_spec (by simpa using hmod) hreduced
    refine ⟨fun p => ?_, ?_⟩
    · rw [hheld p, if_neg]
      simp only [length_nil]
      omega
    · simp only [length_nil] at hlen
      simp only [hlen]
      omega

/-- Everything a buffer holds is at its place in the file. -/
structure Placed (file : Bytes) (xfer : XferBuffer) : Prop where
  bytes : ∀ p c, held xfer p = some c → file[p]? = some c
  within : xfer.data.length ≤ file.length

theorem Placed.eq_file {file : Bytes} (h : Placed file xfer)
    (hall : ∀ p < file.length, held xfer p = file[p]?) : xfer.data = file.map some := by
  have hlen : xfer.data.length = file.length := by
    apply le_antisymm h.within
    by_contra hshort
    have hlast := hall xfer.data.length (by omega)
    rw [held, getElem?_eq_none le_rfl, getElem?_eq_getElem (by omega)] at hlast
    cases hlast
  apply ext_getElem?
  intro p
  rw [getElem?_map]
  rcases lt_or_ge p file.length with hp | hp
  · have hp' : p < xfer.data.length := by omega
    have hbyte := hall p hp
    rw [held, getElem?_eq_getElem hp', getElem?_eq_getElem hp] at hbyte
    rw [getElem?_eq_getElem hp', getElem?_eq_getElem hp]
    exact congrArg some hbyte
  · rw [getElem?_eq_none (by omega), getElem?_eq_none hp]
    rfl

section

variable {server : TftpServer arch} {block : ℕ}

theorem length_block_le (server : TftpServer arch) (block : ℕ) :
    (server.block block).length ≤ server.blksize := by
  rw [TftpServer.block, length_take]
  exact min_le_left _ _

theorem mul_blksize_le (hblock : block ≤ server.lastBlock) :
    block * server.blksize ≤ server.file.length :=
  (Nat.mul_le_mul_right _ hblock).trans (Nat.div_mul_le_self _ _)

theorem block_end (hblock : block ≤ server.lastBlock) :
    block * server.blksize + (server.block block).length =
      min ((block + 1) * server.blksize) server.file.length := by
  have hle := mul_blksize_le hblock
  rw [TftpServer.block, length_take, length_drop, add_mul]
  omega

theorem getElem?_block {p : ℕ} (hfrom : block * server.blksize ≤ p)
    (hto : p < block * server.blksize + (server.block block).length) :
    (server.block block)[p - block * server.blksize]? = server.file[p]? := by
  have hle := length_block_le server block
  rw [TftpServer.block, getElem?_take_of_lt (by omega), getElem?_drop]
  congr 1
  omega

/-- **The block number is the right one** if it has the high bits of the next one. -/
theorem tftpBlock_eq {tftp : TftpRequest} (hblock : block ≤ tftp.bitmap.firstGap)
    (hhigh : (block + 1) / 2 ^ 16 = (tftp.bitmap.firstGap + 1) / 2 ^ 16)
    (hgap : tftp.bitmap.firstGap + 1 < 2 ^ 32) :
    tftpBlock tftp ((block + 1) % 2 ^ 16) = some block := by
  have hhigher : (tftp.bitmap.firstGap + 1) % 2 ^ 32 / 2 ^ 16 * 2 ^ 16 =
      (block + 1) / 2 ^ 16 * 2 ^ 16 := by
    rw [Nat.mod_eq_of_lt hgap, hhigh]
  have hnumber : ¬((block + 1) % 2 ^ 16 = 0 ∧ (block + 1) / 2 ^ 16 * 2 ^ 16 = 0) := by omega
  have hsum : ((block + 1) / 2 ^ 16 * 2 ^ 16 + (block + 1) % 2 ^ 16 + (2 ^ 32 - 1)) % 2 ^ 32 =
      block := by
    omega
  simp only [tftpBlock, hhigher, hsum, if_neg hnumber]

end

/-! ## Requests -/

/-- A request that has received the first `count` blocks, with the file size that it knows of. -/
structure Receiving (server : TftpServer arch) (tftp : TftpRequest) (count : ℕ) : Prop where
  blksize : tftp.blksize = server.blksize
  received : ReceivedFirst arch tftp.bitmap count
  sized : tftp.bitmap.length =
    if tftp.filesize = 0 then 0 else tftp.filesize / server.blksize + 1
  positive : tftp.filesize ≠ 0 → 0 < server.blksize
  enough : min (count * server.blksize) server.file.length ≤ tftp.filesize
  bounded : tftp.filesize ≤ server.file.length
  placed : Placed server.file tftp.xfer
  written : ∀ p < min (count * server.blksize) server.file.length,
    held tftp.xfer p = server.file[p]?

section

variable {server : TftpServer arch} {tftp : TftpRequest} {count : ℕ}

theorem receiving_zero (server : TftpServer arch) (hblksize : tftp.blksize = server.blksize)
    (hbitmap : tftp.bitmap = {}) (hfilesize : tftp.filesize = 0) (hxfer : tftp.xfer = {}) :
    Receiving server tftp 0 := by
  have hpos := sizeBits_pos arch
  have hsize : arch.sizeBits ≤ 2 ^ 32 := by cases arch <;> decide
  refine ⟨hblksize, ?_, ?_, fun h => absurd hfilesize h, ?_, by omega, ?_, ?_⟩
  · rw [hbitmap]
    refine ⟨rfl, fun i => ?_, ?_, le_rfl, by simpa using hsize⟩
    · simp
    · rw [bitmapNumBlocks_eq (by simpa using hsize)]
      simp only [length_nil]
      exact (Nat.div_eq_of_lt (by omega)).symm
  · rw [hbitmap, hfilesize]
    rfl
  · simp
  · rw [hxfer]
    refine ⟨fun p c hc => ?_, Nat.zero_le _⟩
    cases hc
  · intro p hp
    simp at hp

/-- What stays of a request when its size becomes known. -/
structure Presized (tftp : TftpRequest) (size : ℕ) (sized : TftpRequest) : Prop where
  status : sized.status = tftp.status
  stray : sized.stray = tftp.stray
  tsize : sized.tsize = tftp.tsize
  peer : sized.peer = tftp.peer
  held : ∀ p, held sized.xfer p = held tftp.xfer p
  length : sized.xfer.data.length ≤ max tftp.xfer.data.length size

theorem tftpPresize_presized (allocs : TftpAllocations) (tftp : TftpRequest) (size : ℕ) :
    Presized tftp size (tftpPresize arch allocs tftp size).1 := by
  obtain ⟨hheld, hlen⟩ := @xferSeek_spec arch allocs.seek tftp.xfer size
  obtain ⟨hheld', hlen'⟩ := @xferSeek_spec arch allocs.seek
    (xferSeek arch allocs.seek tftp.xfer size) 0
  have hseek := fun p => (hheld' p).trans (hheld p)
  have hroom := hlen'.trans (max_le hlen (Nat.zero_le _))
  simp only [tftpPresize]
  split_ifs
  · exact ⟨rfl, rfl, rfl, rfl, fun _ => rfl, le_max_left _ _⟩
  · exact ⟨rfl, rfl, rfl, rfl, hseek, hroom⟩
  · split <;> exact ⟨rfl, rfl, rfl, rfl, hseek, hroom⟩

theorem Presized.placed {size : ℕ} {sized : TftpRequest} (h : Presized tftp size sized)
    (hplaced : Placed server.file tftp.xfer) (hsize : size ≤ server.file.length) :
    Placed server.file sized.xfer := by
  refine ⟨fun p c hc => hplaced.bytes p c ?_, h.length.trans (max_le hplaced.within hsize)⟩
  rw [← h.held p]
  exact hc

theorem Receiving.presize (h : Receiving server tftp count) (allocs : TftpAllocations)
    {size : ℕ} (hsize : size ≤ server.file.length)
    (hsmall : size / server.blksize + arch.sizeBits < 2 ^ 32)
    (hok : (tftpPresize arch allocs tftp size).2 = none) :
    Receiving server (tftpPresize arch allocs tftp size).1 count ∧
      size ≤ (tftpPresize arch allocs tftp size).1.filesize := by
  have hpresized := @tftpPresize_presized arch allocs tftp size
  simp only [tftpPresize] at hok hpresized ⊢
  split_ifs at hok hpresized ⊢ with hknown hzero
  · exact ⟨h, hknown⟩
  · have hblocks : (size / tftp.blksize + 1) % 2 ^ 32 = size / server.blksize + 1 := by
      have hpos := sizeBits_pos arch
      rw [h.blksize, Nat.mod_eq_of_lt (by omega)]
    rw [hblocks] at hok hpresized ⊢
    cases hresize : bitmapResize arch allocs.bitmap tftp.bitmap
        (size / server.blksize + 1) with
    | error rc =>
      rw [hresize] at hok
      cases hok
    | ok bitmap =>
      simp only [hresize] at hpresized ⊢
      have hgrows : tftp.bitmap.length ≤ size / server.blksize + 1 := by
        rw [h.sized]
        split_ifs
        · omega
        · exact Nat.succ_le_succ (Nat.div_le_div_right (by omega))
      obtain ⟨hreceived, hlen⟩ := h.received.resize hgrows (by omega) hresize
      rw [h.blksize] at hzero
      refine ⟨⟨h.blksize, hreceived, ?_, fun _ => Nat.pos_of_ne_zero hzero, ?_, hsize,
        hpresized.placed h.placed hsize, ?_⟩, le_rfl⟩
      · rw [hlen, if_neg (show ¬size = 0 by omega)]
      · exact h.enough.trans (Nat.le_of_not_le hknown)
      · intro p hp
        rw [hpresized.held p]
        exact h.written p hp

/-- The data of a block is at its place. -/
def HoldsBlock (server : TftpServer arch) (xfer : XferBuffer) (block : ℕ) : Prop :=
  ∀ p, block * server.blksize ≤ p → p < block * server.blksize + (server.block block).length →
    held xfer p = server.file[p]?

variable {block : ℕ}

theorem Receiving.deliver (h : Receiving server tftp count) (hlast : block ≤ server.lastBlock)
    (hfits : block * server.blksize + (server.block block).length < 2 ^ arch.sizeBits)
    {allocated : Bool} {filled : XferBuffer}
    (hdeliver : xferbufDeliver arch allocated tftp.xfer (block * server.blksize)
      (server.block block) = .ok filled) :
    Receiving server { tftp with xfer := filled } count ∧ HoldsBlock server filled block := by
  obtain ⟨hheld, hlen⟩ := xferbufDeliver_spec hfits hdeliver
  have hblock : HoldsBlock server filled block := by
    intro p hfrom hto
    rw [hheld p, if_pos ⟨hfrom, hto⟩, getElem?_block hfrom hto]
  have hend := block_end hlast
  refine ⟨{ h with placed := ⟨?_, ?_⟩, written := ?_ }, hblock⟩
  · intro p c hc
    by_cases hin : block * server.blksize ≤ p ∧
        p < block * server.blksize + (server.block block).length
    · rw [← hblock p hin.1 hin.2]
      exact hc
    · rw [hheld p, if_neg hin] at hc
      exact h.placed.bytes p c hc
  · rw [hlen, hend]
    exact max_le h.placed.within (min_le_right _ _)
  · intro p hp
    by_cases hin : block * server.blksize ≤ p ∧
        p < block * server.blksize + (server.block block).length
    · exact hblock p hin.1 hin.2
    · rw [hheld p, if_neg hin]
      exact h.written p hp

/-- The blocks that have been received once one more is. -/
def countAfter (count block : ℕ) : ℕ := if block = count then count + 1 else count

/-- A request that has received the first blocks, with the ACK that it sends. -/
structure Acknowledging (server : TftpServer arch) (stray : Bool) (tsize count : ℕ)
    (received : TftpRequest × Option ℕ) : Prop where
  receiving : Receiving server received.1 count
  ack : received.2 = some (count % 2 ^ 16)
  stray : received.1.stray = stray
  tsize : received.1.tsize = tsize

/-- The request is complete if the bitmap is full. -/
def CompletesIfFull (status : TftpStatus) (tftp : TftpRequest) : Prop :=
  tftp.status = if bitmapFull tftp.bitmap then .done else status

theorem Receiving.markBlock (h : Receiving server tftp count) (hpeer : tftp.peer = true)
    (hblock : block ≤ count) (hlast : block ≤ server.lastBlock)
    (hpos : 0 < block * server.blksize + (server.block block).length)
    (hknown : block * server.blksize + (server.block block).length ≤ tftp.filesize)
    (hheld : HoldsBlock server tftp.xfer block) :
    Acknowledging server tftp.stray tftp.tsize (countAfter count block)
        (tftpMarkBlock arch tftp block) ∧
      CompletesIfFull tftp.status (tftpMarkBlock arch tftp block).1 := by
  have hpositive := h.positive (by omega)
  have hlen : tftp.bitmap.length = tftp.filesize / server.blksize + 1 := by
    rw [h.sized, if_neg (by omega)]
  have hwithin : block < tftp.bitmap.length := by
    rw [hlen, Nat.lt_succ_iff, Nat.le_div_iff_mul_le hpositive]
    omega
  have hend := block_end hlast
  have hset := h.received.set hwithin hblock
  have hindex : ¬tftp.bitmap.blocks.length ≤ bitmapIndex arch block := by
    rw [h.received.words, not_le]
    exact bitmapIndex_lt h.received.small hwithin
  have hreceiving : ∀ (stray : Bool) (status : TftpStatus), Receiving server
      { tftp with
        stray := stray
        bitmap := bitmapSet arch tftp.bitmap block
        status := status } (countAfter count block) := by
    intro stray status
    refine { h with received := hset, enough := ?_, written := ?_ }
    · unfold countAfter
      split_ifs with hnext
      · rw [← hnext, ← hend]
        exact hknown
      · exact h.enough
    · intro p hp
      unfold countAfter at hp
      split_ifs at hp with hnext
      · -- the bytes before the block are there already
        rcases lt_or_ge p (block * server.blksize) with hbefore | hfrom
        · apply h.written p
          rw [← hnext]
          omega
        · apply hheld p hfrom
          rw [hend, hnext]
          exact hp
      · exact h.written p hp
  have hstray : (tftp.stray || decide (tftp.bitmap.blocks.length ≤ bitmapIndex arch block)) =
      tftp.stray := by
    rw [decide_eq_false hindex, Bool.or_false]
  have hack : tftpSendPacket { tftp with bitmap := bitmapSet arch tftp.bitmap block } =
      some (countAfter count block % 2 ^ 16) := by
    rw [tftpSendPacket, if_pos hpeer, countAfter, ← hset.gap]
  unfold tftpMarkBlock
  simp only [hstray]
  cases hfull : bitmapFull (bitmapSet arch tftp.bitmap block) with
  | true => exact ⟨⟨hreceiving _ _, hack, rfl, rfl⟩, (if_pos hfull).symm⟩
  | false =>
    refine ⟨⟨hreceiving _ _, hack, rfl, rfl⟩, ?_⟩
    exact (if_neg (fun h => Bool.false_ne_true (hfull.symm.trans h))).symm

theorem xferbufDeliver_allocated (hfits : offset + data.length < 2 ^ arch.sizeBits) :
    ∃ filled, xferbufDeliver arch true xfer offset data = .ok filled := by
  unfold xferbufDeliver
  simp only [xferbufWrite, xferbufEnsureSize,
    Nat.mod_eq_of_lt (show offset < 2 ^ arch.sizeBits by omega), Nat.mod_eq_of_lt hfits]
  rw [if_neg (by omega)]
  split_ifs <;> exact ⟨_, rfl⟩

theorem tftpPresize_allocated {size : ℕ} (hblksize : tftp.blksize ≠ 0) :
    (tftpPresize arch {} tftp size).2 = none := by
  simp only [tftpPresize]
  split_ifs
  · rfl
  · simp [bitmapResize]

structure Failing (server : TftpServer arch) (stray : Bool)
    (received : TftpRequest × Option ℕ) : Prop where
  failed : ∃ rc, received.1.status = .failed rc
  ack : received.2 = none
  stray : received.1.stray = stray
  placed : Placed server.file received.1.xfer

theorem copesWith_blksize_pos (h : server.CopesWith count block) : 0 < server.blksize := by
  by_contra hzero
  have hle := length_block_le server block
  have hmul : block * server.blksize = 0 := by rw [Nat.eq_zero_of_not_pos hzero, mul_zero]
  have hpos := h.pos
  omega

/-- A block is acknowledged, or an allocation has failed. -/
def Counts (server : TftpServer arch) (allocs : TftpAllocations) (tftp : TftpRequest)
    (count : ℕ) (received : TftpRequest × Option ℕ) : Prop :=
  (Acknowledging server tftp.stray tftp.tsize count received ∧
    CompletesIfFull tftp.status received.1) ∨
    Failing server tftp.stray received ∧ allocs ≠ {}

section

variable (h : Receiving server tftp count)

include h

theorem Receiving.rxBlock (hpeer : tftp.peer = true) (allocs : TftpAllocations) {block : ℕ}
    (hblock : block ≤ count) (hlast : block ≤ server.lastBlock)
    (hcopes : server.CopesWith count block) :
    Counts server allocs tftp (countAfter count block)
      (tftpRxBlock arch allocs tftp block (server.block block)) := by
  have hblksize := copesWith_blksize_pos hcopes
  have hend := block_end hlast
  have hoffset : block * tftp.blksize % 2 ^ 32 = block * server.blksize := by
    rw [h.blksize, Nat.mod_eq_of_lt hcopes.offset]
  have hshort : ¬tftp.blksize < (server.block block).length := by
    rw [h.blksize]
    exact not_lt.2 (length_block_le server block)
  unfold tftpRxBlock
  simp only [hoffset, Nat.mod_eq_of_lt hcopes.fits, if_neg hshort]
  cases hdeliver : xferbufDeliver arch allocs.deliver tftp.xfer (block * server.blksize)
      (server.block block) with
  | error rc =>
    refine .inr ⟨⟨⟨rc, rfl⟩, rfl, rfl, h.placed⟩, ?_⟩
    rintro rfl
    obtain ⟨filled, hfilled⟩ := @xferbufDeliver_allocated arch tftp.xfer _ _ hcopes.fits
    rw [hfilled] at hdeliver
    cases hdeliver
  | ok filled =>
    obtain ⟨hdelivered, hheld⟩ := h.deliver hlast hcopes.fits hdeliver
    have hsize : block * server.blksize + (server.block block).length ≤ server.file.length :=
      hend ▸ min_le_right _ _
    have hframe := @tftpPresize_presized arch allocs { tftp with xfer := filled }
      (block * server.blksize + (server.block block).length)
    have hsized := hdelivered.presize allocs hsize hcopes.small
    have hroom : allocs = {} → (tftpPresize arch allocs { tftp with xfer := filled }
        (block * server.blksize + (server.block block).length)).2 = none := by
      rintro rfl
      apply tftpPresize_allocated
      rw [h.blksize]
      omega
    revert hframe hsized hroom
    dsimp only
    generalize tftpPresize arch allocs { tftp with xfer := filled }
      (block * server.blksize + (server.block block).length) = sized
    intro hframe hsized hroom
    obtain ⟨sized, rc⟩ := sized
    cases rc with
    | some rc =>
      refine .inr ⟨⟨⟨rc, rfl⟩, rfl, hframe.stray, hframe.placed hdelivered.placed hsize⟩,
        fun hall => ?_⟩
      cases hroom hall
    | none =>
      obtain ⟨hreceiving, hknown⟩ := hsized rfl
      obtain ⟨hmarked, hcomplete⟩ := hreceiving.markBlock (hframe.peer.trans hpeer) hblock hlast
        hcopes.pos hknown fun p hfrom hto => (hframe.held p).trans (hheld p hfrom hto)
      rw [hframe.stray, hframe.tsize] at hmarked
      rw [hframe.status] at hcomplete
      exact .inl ⟨hmarked, hcomplete⟩

theorem Receiving.withPeer : Receiving server { tftp with peer := true } count :=
  { h with }

/-- **A block that the client can cope with** is counted and its data held, unless an
allocation fails. -/
theorem Receiving.rxData (allocs : TftpAllocations) {block : ℕ} (hblock : block ≤ count)
    (hlast : block ≤ server.lastBlock) (hcopes : server.CopesWith count block) :
    Counts server allocs tftp (countAfter count block)
      (tftpRxData arch allocs tftp ((block + 1) % 2 ^ 16) (server.block block)) := by
  have hbits := le_sizeBits arch
  have hgap : tftp.bitmap.firstGap = count := h.received.gap
  have hwithin := h.received.within
  have hlen := h.received.small
  have hnumber : tftpBlock { tftp with peer := true } ((block + 1) % 2 ^ 16) = some block := by
    apply tftpBlock_eq
    · exact hblock.trans hgap.ge
    · exact hcopes.high.trans (by rw [hgap])
    · show tftp.bitmap.firstGap + 1 < 2 ^ 32
      omega
  have hblocked := h.withPeer.rxBlock rfl allocs hblock hlast hcopes
  unfold tftpRxData
  simp only [hnumber]
  exact hblocked

/-- **A bitmap that is full** is that of the whole file. -/
theorem Receiving.full (hpos : 0 < count) (hfull : bitmapFull tftp.bitmap = true) :
    count = server.lastBlock + 1 ∧ tftp.xfer.data = server.file.map some := by
  have hlen : tftp.bitmap.length = count := by
    rw [← h.received.gap]
    exact (of_decide_eq_true hfull).symm
  have hsized := h.sized
  have hknown : tftp.filesize ≠ 0 := by
    intro hzero
    rw [if_pos hzero] at hsized
    omega
  have hpositive := h.positive hknown
  rw [if_neg hknown] at hsized
  -- if the file went on, so would what is known of its size
  have hend : server.file.length < count * server.blksize := by
    by_contra hmore
    have henough := h.enough
    rw [min_eq_left (by omega)] at henough
    have hblocks := (Nat.le_div_iff_mul_le hpositive).2 henough
    omega
  have hlast : server.lastBlock < count := (Nat.div_lt_iff_lt_mul hpositive).2 hend
  have hbound : tftp.filesize / server.blksize ≤ server.lastBlock := Nat.div_le_div_right h.bounded
  refine ⟨by omega, h.placed.eq_file fun p hp => h.written p ?_⟩
  rw [min_eq_right hend.le]
  exact hp

end

/-- A processing of options fails, or sets some of the sizes, whatever they were. -/
def SetsSizes (process : ℕ × ℕ → Except Errno (ℕ × ℕ)) : Prop :=
  (∃ rc, ∀ sizes, process sizes = .error rc) ∨
    ∃ blksize tsize : Option ℕ, ∀ sizes, process sizes =
      .ok (blksize.getD sizes.1, tsize.getD sizes.2)

theorem SetsSizes.bind {process next : ℕ × ℕ → Except Errno (ℕ × ℕ)} (h : SetsSizes process)
    (hnext : SetsSizes next) : SetsSizes fun sizes => process sizes >>= next := by
  rcases h with ⟨rc, hrc⟩ | ⟨blksize, tsize, hsizes⟩
  · refine .inl ⟨rc, fun sizes => ?_⟩
    show process sizes >>= next = _
    rw [hrc]
    rfl
  · rcases hnext with ⟨rc, hrc⟩ | ⟨blksize', tsize', hrest⟩
    · refine .inl ⟨rc, fun sizes => ?_⟩
      show process sizes >>= next = _
      rw [hsizes]
      exact hrc _
    · refine .inr ⟨blksize'.or blksize, tsize'.or tsize, fun sizes => ?_⟩
      show process sizes >>= next = _
      rw [hsizes, getD_or, getD_or]
      exact hrest _

theorem SetsSizes.again {process : ℕ × ℕ → Except Errno (ℕ × ℕ)} (hsets : SetsSizes process)
    {sizes negotiated : ℕ × ℕ} (h : process sizes = .ok negotiated) :
    process negotiated = .ok negotiated := by
  rcases hsets with ⟨rc, hrc⟩ | ⟨blksize, tsize, hsizes⟩
  · rw [hrc] at h
    cases h
  · rw [hsizes] at h
    cases h
    rw [hsizes]
    cases blksize <;> cases tsize <;> rfl

theorem setsSizes_tftpProcessOption (option : TftpOption) :
    SetsSizes (tftpProcessOption arch · option) := by
  cases option with
  | blksize value =>
    simp only [tftpProcessOption]
    split_ifs
    · exact .inl ⟨_, fun _ => rfl⟩
    · exact .inr ⟨some _, none, fun _ => rfl⟩
  | tsize value =>
    simp only [tftpProcessOption]
    split_ifs
    · exact .inl ⟨_, fun _ => rfl⟩
    · exact .inr ⟨none, some _, fun _ => rfl⟩
  | unknown => exact .inr ⟨none, none, fun _ => rfl⟩

theorem setsSizes_tftpProcessOptions (options : List TftpOption) :
    SetsSizes (tftpProcessOptions arch · options) := by
  induction options with
  | nil => exact .inr ⟨none, none, fun _ => rfl⟩
  | cons option options ih =>
    exact (setsSizes_tftpProcessOption option).bind ih

/-- **The OACK** sets the sizes; the blocks that have been received stay. -/
theorem Receiving.rxOack (h : Receiving server { tftp with blksize := server.blksize } count)
    (allocs : TftpAllocations)
    (hsizes : tftpProcessOptions arch (tftp.blksize, tftp.tsize) (server.oack.getD []) =
      .ok (server.blksize, server.tsize))
    (hsmall : server.tsize / server.blksize + arch.sizeBits < 2 ^ 32) :
    (Acknowledging server tftp.stray server.tsize count
        (tftpRxOack arch allocs tftp (server.oack.getD [])) ∧
      (tftpRxOack arch allocs tftp (server.oack.getD [])).1.status = tftp.status) ∨
      Failing server tftp.stray (tftpRxOack arch allocs tftp (server.oack.getD [])) := by
  have hready : Receiving server
      { tftp with peer := true, blksize := server.blksize, tsize := server.tsize } count :=
    { h with }
  unfold tftpRxOack
  simp only [hsizes]
  by_cases hannounced : server.tsize = 0
  · rw [if_neg (not_not.2 hannounced)]
    refine .inl ⟨⟨hready, ?_, rfl, rfl⟩, rfl⟩
    simp only [tftpSendPacket, if_true]
    rw [← hready.received.gap]
  · rw [if_pos hannounced]
    have hframe := @tftpPresize_presized arch allocs
      { tftp with peer := true, blksize := server.blksize, tsize := server.tsize } server.tsize
    have hsized := hready.presize allocs server.announced hsmall
    revert hframe hsized
    generalize tftpPresize arch allocs
      { tftp with peer := true, blksize := server.blksize, tsize := server.tsize }
      server.tsize = sized
    intro hframe hsized
    obtain ⟨sized, rc⟩ := sized
    cases rc with
    | some rc =>
      exact .inr ⟨⟨rc, rfl⟩, rfl, hframe.stray, hframe.placed hready.placed server.announced⟩
    | none =>
      obtain ⟨hreceiving, -⟩ := hsized rfl
      refine .inl ⟨⟨hreceiving, ?_, hframe.stray, hframe.tsize⟩, hframe.status⟩
      show tftpSendPacket sized = _
      rw [tftpSendPacket, if_pos (show sized.peer = true from hframe.peer),
        ← hreceiving.received.gap]

end

end Ipxe.Analysis
