import Ipxe.Analysis.SanSplitting

/-!
# Overridden reads

A successful read leaves what the disk holds or, where locations have been registered, what the
last one that covers the byte puts there.  Positions have 64 bits and blocks are counted with 32.
-/

namespace Ipxe.Analysis

open Library Model Interface List BitVec Option

section

variable {w : ℕ} {sandev : SanDevice w} {buffer : BitVec w} {rc : Option Errno}
  {params : SanCommandRwParams w} {world after : SanWorld w}

/-! ## Reading -/

/-- A read of `len` bytes: nothing else is written, and in the end they are there. -/
structure Reads (pos : ℕ) (buffer : BitVec w) (len : ℕ) (before after : SanWorld w)
    (rc : Option Errno) : Prop where
  disk : after.disk = before.disk
  outside : ∀ addr, len ≤ ahead buffer addr → after.mem addr = before.mem addr
  done : rc = none → after.mem = fill before.mem buffer len fun i => before.disk (pos + i)

theorem Reads.trans {pos m n : ℕ} {first second third : SanWorld w}
    (h : Reads pos buffer m first second none)
    (h' : Reads (pos + m) (serialAt buffer m) n second third rc) (hfits : m + n < 2 ^ w) :
    Reads pos buffer (m + n) first third rc where
  disk := h'.disk.trans h.disk
  outside := fun addr haddr => by
    have hm : m ≤ ahead buffer addr := by omega
    rw [h'.outside addr, h.outside addr hm]
    rw [ahead_serialAt buffer addr (by omega), if_pos hm]
    omega
  done := fun hrc => by
    rw [h'.done hrc, h.done rfl, h.disk, fill_append _ _ _ _ hfits.le]
    congr 1
    funext i
    split_ifs with hi
    · rfl
    · rw [Nat.add_assoc, Nat.add_sub_cancel' (Nat.le_of_not_lt hi)]

section

variable (params : SanCommandRwParams w)

variable (moved : ℕ → Option UInt8)

@[simp] theorem blockMoves_read_mem (world : SanWorld w) :
    (blockMoves sandev params moved world .read).mem =
      fill world.mem params.buffer (rwLen sandev params) fun i =>
        (moved i).getD (world.mem (serialAt params.buffer i)) := rfl

@[simp] theorem blockMoves_read_disk (world : SanWorld w) :
    (blockMoves sandev params moved world .read).disk = world.disk := rfl

theorem blockMoves_outside (world : SanWorld w) {addr : BitVec w}
    (h : rwLen sandev params ≤ ahead params.buffer addr) :
    (blockMoves sandev params moved world .read).mem addr = world.mem addr := by
  rw [blockMoves_read_mem, fill_outside _ _ _ h]

end

theorem Reads.after_moves {moved : ℕ → Option UInt8}
    (h : Reads (rwPos sandev params) params.buffer (rwLen sandev params)
      (blockMoves sandev params moved world .read) after rc) :
    Reads (rwPos sandev params) params.buffer (rwLen sandev params) world after rc where
  disk := h.disk
  outside := fun addr haddr =>
    (h.outside addr haddr).trans (blockMoves_outside params moved world haddr)
  done := fun hrc => by
    rw [h.done hrc, blockMoves_read_mem, fill_fill, blockMoves_read_disk]

theorem Reads.widen {pos pos' m n : ℕ} {before : SanWorld w} {rc : Errno}
    (h : Reads pos buffer m before after (some rc)) (hle : m ≤ n) :
    Reads pos' buffer n before after (some rc) :=
  ⟨h.disk, fun addr haddr => h.outside addr (hle.trans haddr), nofun⟩

theorem Reads.of_empty {pos pos' : ℕ} {before : SanWorld w}
    (h : Reads pos buffer 0 before after rc) :
    Reads pos' buffer 0 before after rc :=
  ⟨h.disk, h.outside, fun hrc => by rw [h.done hrc, fill_zero, fill_zero]⟩

theorem reads_failed {rc : Errno} :
    Reads (rwPos sandev params) params.buffer (rwLen sandev params) world world (some rc) :=
  ⟨rfl, fun _ _ => rfl, nofun⟩

theorem reads_done :
    Reads (rwPos sandev params) params.buffer (rwLen sandev params) world
      (blockMoves sandev params (rwBytes sandev params world .read) world .read) none :=
  ⟨rfl, fun _ haddr => blockMoves_outside params _ world haddr, fun _ => rfl⟩

/-- **A command reads its blocks**, however often it is tried. -/
theorem sandevCommand_reads (sandev : SanDevice w) (sanRetries : ℕ) (params : SanCommandRwParams w)
    (attempts : List Attempt) (retries : BitVec 32) (world : SanWorld w) :
    Reads (rwPos sandev params) params.buffer (rwLen sandev params) world
      (sandevCommand sandev sanRetries .read params attempts retries world).world
      (sandevCommand sandev sanRetries .read params attempts retries world).rc := by
  induction attempts generalizing retries world with
  | nil => exact reads_done
  | cons attempt attempts ih =>
    cases attempt with
    | succeeds => exact reads_done
    | reopenFails rc =>
      simp only [sandevCommand]
      by_cases hretry : (if sandev.paths ≤ 1 then retries + 1 else retries).toNat ≤ sanRetries
      · rw [if_pos hretry]
        exact ih _ _
      · rw [if_neg hretry]
        exact reads_failed
    | initiateFails rc =>
      simp only [sandevCommand]
      split_ifs
      · exact ih _ _
      · exact reads_failed
    | fails rc moved =>
      simp only [sandevCommand]
      split_ifs
      · exact (ih _ _).after_moves
      · exact reads_failed.after_moves

theorem nextFragment_buffer (params : SanCommandRwParams w) :
    (nextFragment sandev params).buffer =
      serialAt params.buffer (params.count.toNat * sandev.capacity.blksize.toNat) := by
  simp only [nextFragment]
  rw [mul_comm, fragLen_eq, serialAt]

theorem toNat_nextFragment_lba (h : params.lba.toNat + params.count.toNat < 2 ^ 64) :
    (nextFragment sandev params).lba.toNat = params.lba.toNat + params.count.toNat := by
  simp only [nextFragment]
  rw [toNat_add, toNat_setWidth, Nat.mod_eq_of_lt (by omega : params.count.toNat < 2 ^ 64),
    Nat.mod_eq_of_lt h]

variable {attempts : List Attempt}

theorem sandevRwLoop_reads {sanRetries fuel : ℕ} {remaining : BitVec 32}
    {run : SanRun w} (hfits : remaining.toNat * sandev.capacity.blksize.toNat < 2 ^ w)
    (hnumbered : sandev.capacity.blksize = 0 ∨ params.lba.toNat + remaining.toNat ≤ 2 ^ 64)
    (h : sandevRwLoop sandev sanRetries .read fuel params remaining world attempts = some run) :
    Reads (rwPos sandev params) params.buffer (remaining.toNat * sandev.capacity.blksize.toNat)
      world run.world run.rc := by
  induction fuel generalizing params remaining world attempts run with
  | zero => exact absurd h nofun
  | succ fuel ih =>
    by_cases hrem : remaining = 0
    · rw [sandevRwLoop_done hrem] at h
      rw [← Option.some.inj h, hrem]
      exact ⟨rfl, fun _ _ => rfl, fun _ => by simp⟩
    have hcount := fragment_count params remaining
    have hleft := toNat_remaining params remaining
    generalize hfragment : fragment params remaining = frag at *
    have hle : frag.count.toNat ≤ remaining.toNat := by omega
    have hsplit : remaining.toNat * sandev.capacity.blksize.toNat =
        frag.count.toNat * sandev.capacity.blksize.toNat +
          (remaining.toNat - frag.count.toNat) * sandev.capacity.blksize.toNat := by
      rw [← Nat.add_mul, Nat.add_sub_cancel' hle]
    have hlen : rwLen sandev frag = frag.count.toNat * sandev.capacity.blksize.toNat :=
      rwLen_eq (lt_of_le_of_lt (Nat.mul_le_mul_right _ hle) hfits)
    have hreads := sandevCommand_reads sandev sanRetries frag attempts 0 world
    rw [sandevRwLoop_succ hrem, hfragment] at h
    generalize sandevCommand sandev sanRetries .read frag attempts 0 world = status at h hreads
    have hbuffer : frag.buffer = params.buffer := hfragment ▸ fragment_buffer params remaining
    have hpos : rwPos sandev frag = rwPos sandev params := by
      rw [rwPos, rwPos, ← hfragment, fragment_lba]
    rw [hlen, hbuffer, hpos] at hreads
    rw [hsplit] at hfits ⊢
    cases hrc : status.rc with
    | some rc =>
      simp only [hrc, Option.some.injEq] at h
      rw [← h, hrc]
      rw [hrc] at hreads
      exact hreads.widen (Nat.le_add_right _ _)
    | none =>
      simp only [hrc] at h
      obtain ⟨rest, hrest, rfl⟩ := map_eq_some_iff.1 h
      rw [hrc] at hreads
      refine hreads.trans ?_ hfits
      have hleft' : (remaining - frag.count).toNat = remaining.toNat - frag.count.toNat := by omega
      have hlba : frag.lba = params.lba := hfragment ▸ fragment_lba params remaining
      by_cases hlast : remaining.toNat = frag.count.toNat
      · -- the address that comes after the last block is not used
        have hempty : (remaining - frag.count).toNat = 0 := by omega
        have hrest := ih (by rw [hempty, Nat.zero_mul]; exact Nat.two_pow_pos w)
          (.inr (by rw [hempty]; exact Nat.le_of_lt (BitVec.isLt _))) hrest
        rw [hempty, Nat.zero_mul, nextFragment_buffer, hbuffer] at hrest
        rw [hlast, Nat.sub_self, Nat.zero_mul]
        exact hrest.of_empty
      · rcases hnumbered with hzero | hnumbered
        · have hrest := ih (by rw [hzero]; simp) (.inl hzero) hrest
          rw [nextFragment_buffer, hbuffer, rwPos, hzero] at hrest
          rw [rwPos, hzero]
          exact hrest
        · have hnext := @toNat_nextFragment_lba w sandev frag (by rw [hlba]; omega)
          rw [hlba] at hnext
          have hrest := ih (by rw [hleft']; omega) (.inr (by omega)) hrest
          rw [hleft', nextFragment_buffer, hbuffer, rwPos, hnext, Nat.add_mul] at hrest
          exact hrest

/-- The request as the loop gets it.
[core/sanboot.c:596-634] -/
theorem sandevRw_reads (req : SanRequest sandev) (hblocks : req.blocks < 2 ^ 32)
    (hbytes : req.pos + req.bytes < 2 ^ 64) {fuel sanRetries : ℕ}
    {run : SanRun w}
    (h : sandevRw fuel sandev sanRetries req.lba req.count req.buffer .read world attempts =
      some run) :
    Reads req.pos req.buffer req.bytes world run.world run.rc := by
  have hcount := toNat_count_shift req
  rw [Nat.mod_eq_of_lt hblocks] at hcount
  have hlba : sandev.capacity.blksize = 0 ∨ req.firstBlock + req.blocks < 2 ^ 64 := by
    by_cases hzero : sandev.capacity.blksize = 0
    · exact .inl hzero
    · have hpos : 0 < sandev.capacity.blksize.toNat := (pos_iff_ne_zero _).2 hzero
      rw [SanRequest.pos, SanRequest.bytes, ← Nat.add_mul] at hbytes
      exact .inr (lt_of_le_of_lt (Nat.le_mul_of_pos_right _ hpos) hbytes)
  have hreads := sandevRwLoop_reads (by rw [hcount]; exact req.fits)
    (hlba.imp_right fun hlt => by
      rw [hcount, lba_shift]
      exact (Nat.add_le_add_right (Nat.mod_le _ _) _).trans hlt.le) h
  have hfirst : rwPos sandev ⟨req.buffer, req.lba <<< sandev.blksizeShift,
      sandev.capacity.maxCount⟩ = req.pos := by
    rw [rwPos, lba_shift, toNat_ofNat, SanRequest.pos]
    rcases hlba with hzero | hlt
    · simp [hzero]
    · rw [Nat.mod_eq_of_lt (by omega)]
  rw [hfirst, hcount] at hreads
  exact hreads

theorem byteAt_cons (sandiskOver : SandiskOver) (loc : BitVec 64) (locs : List (BitVec 64)) (pos : ℕ)
    (disk : UInt8) :
    SandiskOver.byteAt sandiskOver (loc :: locs) pos disk =
      SandiskOver.byteAt sandiskOver locs pos
        (if SandiskOver.Covers sandiskOver pos loc then sandiskOver.buf (pos - loc.toNat)
          else disk) := by
  simp only [SandiskOver.byteAt, reverse_cons, find?_append]
  cases locs.reverse.find? fun loc => SandiskOver.Covers sandiskOver pos loc with
  | some found => rfl
  | none =>
    by_cases hcovers : SandiskOver.Covers sandiskOver pos loc <;> simp [hcovers]

theorem fill_covers (mem : ByteMemory w) (buffer : BitVec w) (sandiskOver : SandiskOver)
    (loc : BitVec 64) (content : ℕ → UInt8) {copied : ℕ → UInt8} {pos n m k : ℕ}
    (hrange : ∀ i < n, m ≤ i ∧ i < m + k ↔
      loc.toNat ≤ pos + i ∧ pos + i < loc.toNat + sandiskOver.len.toNat)
    (hcopied : ∀ i, m ≤ i → copied (i - m) = sandiskOver.buf (pos + i - loc.toNat)) :
    (fill mem buffer n fun i => if m ≤ i ∧ i < m + k then copied (i - m) else content i) =
      fill mem buffer n fun i =>
        if SandiskOver.Covers sandiskOver (pos + i) loc then
          sandiskOver.buf (pos + i - loc.toNat)
        else content i := by
  refine fill_congr _ _ fun i hi => ?_
  have hiff : m ≤ i ∧ i < m + k ↔ SandiskOver.Covers sandiskOver (pos + i) loc := hrange i hi
  by_cases hcovers : SandiskOver.Covers sandiskOver (pos + i) loc
  · rw [if_pos hcovers, if_pos (hiff.2 hcovers), hcopied i (hiff.2 hcovers).1]
  · rw [if_neg hcovers, if_neg (mt hiff.1 hcovers)]

section

variable {seek len : BitVec 64} {pos n : ℕ} (hseek : seek.toNat = pos) (hlen : len.toNat = n)
  (hfits : pos + n < 2 ^ 64) (hn : n ≤ 2 ^ w)

include hseek hlen hfits hn

variable (sandiskOver : SandiskOver)

/-- **Overriding at one location**: before, inside, after or around the bytes that
have been read. -/
theorem sandiskOverride_fill {loc : BitVec 64}
    (hloc : loc.toNat + sandiskOver.len.toNat < 2 ^ 64) (buffer : BitVec w) (mem : ByteMemory w)
    (content : ℕ → UInt8) :
    sandiskOverride seek len buffer sandiskOver (fill mem buffer n content) loc =
      fill mem buffer n fun i =>
        if SandiskOver.Covers sandiskOver (pos + i) loc then
          sandiskOver.buf (pos + i - loc.toNat)
        else content i := by
  have hlenL : (sandiskOver.len.setWidth 64).toNat = sandiskOver.len.toNat := by
    rw [toNat_setWidth, Nat.mod_eq_of_lt (by omega)]
  have hend : (loc + sandiskOver.len.setWidth 64).toNat = loc.toNat + sandiskOver.len.toNat := by
    rw [toNat_add, hlenL, Nat.mod_eq_of_lt hloc]
  have hsum : (seek + len).toNat = pos + n := by
    rw [toNat_add, hseek, hlen, Nat.mod_eq_of_lt hfits]
  simp only [sandiskOverride, le_def, hsum, hend, hseek]
  by_cases hout : pos + n ≤ loc.toNat ∨ loc.toNat + sandiskOver.len.toNat ≤ pos
  · rw [if_pos hout]
    refine fill_congr _ _ fun i hi => (if_neg fun hcovers => ?_).symm
    obtain ⟨hlo, hhi⟩ := hcovers
    omega
  rw [if_neg hout]
  by_cases hbefore : pos ≤ loc.toNat
  · -- from the location on, to the end of the one or of the other
    rw [if_pos hbefore]
    have hdst : buffer + loc.setWidth w - seek.setWidth w = serialAt buffer (loc.toNat - pos) := by
      rw [serialAt, add_sub_assoc, add_right_inj, sub_eq_iff_eq_add, ← ofNat_toNat,
        ← ofNat_toNat, hseek, ← ofNat_add, Nat.sub_add_cancel hbefore]
    have hover : (if pos + n ≤ loc.toNat + sandiskOver.len.toNat then seek + len - loc
        else sandiskOver.len.setWidth 64).toNat =
          min (pos + n - loc.toNat) sandiskOver.len.toNat := by
      split_ifs with hcut
      · rw [toNat_sub_of_le (by rw [le_def]; omega), hsum]
        omega
      · omega
    rw [hdst, fill_within _ _ _ _ (by omega) hn]
    exact fill_covers _ _ _ _ _ (fun i hi => by omega) fun i hi => congrArg _ (by omega)
  · -- from the start of what has been read on
    rw [if_neg hbefore]
    have hskip : (seek - loc).toNat = pos - loc.toNat := by
      rw [toNat_sub_of_le (by rw [le_def]; omega), hseek]
    have hover : (if pos + n ≤ loc.toNat + sandiskOver.len.toNat then len
        else loc + sandiskOver.len.setWidth 64 - seek).toNat =
          min n (loc.toNat + sandiskOver.len.toNat - pos) := by
      split_ifs with hcut
      · omega
      · rw [toNat_sub_of_le (by rw [le_def]; omega), hend]
        omega
    have hdst : serialAt buffer 0 = buffer := add_zero _
    nth_rewrite 2 [← hdst]
    rw [hskip, fill_within _ _ _ _ (by omega) hn]
    refine @fill_covers w mem buffer sandiskOver loc content
      (fun i => sandiskOver.buf (pos - loc.toNat + i)) pos n 0 _ (fun i hi => by omega) fun i _ => ?_
    exact congrArg _ (by omega)

theorem foldl_sandiskOverride {locs : List (BitVec 64)}
    (hlocs : ∀ loc ∈ locs, loc.toNat + sandiskOver.len.toNat < 2 ^ 64) (buffer : BitVec w)
    (mem : ByteMemory w) (content : ℕ → UInt8) :
    locs.foldl (sandiskOverride seek len buffer sandiskOver) (fill mem buffer n content) =
      fill mem buffer n fun i =>
        SandiskOver.byteAt sandiskOver locs (pos + i) (content i) := by
  induction locs generalizing content with
  | nil => rfl
  | cons loc locs ih =>
    obtain ⟨hloc, hlocs⟩ := forall_mem_cons.1 hlocs
    rw [foldl_cons, sandiskOverride_fill hseek hlen hfits hn sandiskOver hloc, ih hlocs]
    exact fill_congr _ _ fun i _ => (byteAt_cons _ _ _ _ _).symm

end

theorem sandiskOverride_zero {seek len : BitVec 64} (hlen : len = 0) (buffer : BitVec w)
    (sandiskOver : SandiskOver) (mem : ByteMemory w) (loc : BitVec 64) :
    sandiskOverride seek len buffer sandiskOver mem loc = mem := by
  simp only [sandiskOverride, hlen, add_zero]
  split_ifs with hout hbefore hcut hcut
  · rfl
  · exact absurd (.inl hbefore) hout
  · exact absurd (.inl hbefore) hout
  · exact fill_zero _ _ _
  · exact absurd (.inr (BitVec.le_of_lt (BitVec.not_le.1 hcut))) hout

variable (req : SanRequest sandev)

theorem toNat_sandevBlksize (h : req.count ≠ 0) :
    (sandevBlksize sandev).toNat = sandev.capacity.blksize.toNat * 2 ^ sandev.blksizeShift := by
  have hpos : 0 < req.count.toNat := (pos_iff_ne_zero _).2 h
  rw [sandevBlksize, toNat_shiftLeft, Nat.shiftLeft_eq, Nat.mod_eq_of_lt]
  calc sandev.capacity.blksize.toNat * 2 ^ sandev.blksizeShift
      ≤ req.count.toNat * (sandev.capacity.blksize.toNat * 2 ^ sandev.blksizeShift) :=
        Nat.le_mul_of_pos_left _ hpos
    _ = req.count.toNat * 2 ^ sandev.blksizeShift * sandev.capacity.blksize.toNat := by ring
    _ < 2 ^ w := req.fits

theorem toNat_readLen (hbytes : req.bytes < 2 ^ 64) :
    ((req.count.setWidth w * sandevBlksize sandev).setWidth 64).toNat = req.bytes := by
  have hmod : (req.count.setWidth w * sandevBlksize sandev).toNat = req.bytes % 2 ^ w := by
    rw [sandevBlksize, toNat_mul, toNat_setWidth, toNat_shiftLeft,
      Nat.shiftLeft_eq, ← Nat.mul_mod, SanRequest.bytes, SanRequest.blocks]
    ring_nf
  rw [toNat_setWidth, hmod, Nat.mod_eq_of_lt (a := req.bytes) req.fits, Nat.mod_eq_of_lt hbytes]

theorem toNat_readSeek (hcount : req.count ≠ 0) (hpos : req.pos < 2 ^ 64)
    (hblksize : (sandevBlksize sandev).toNat < 2 ^ 64) :
    (req.lba * (sandevBlksize sandev).setWidth 64).toNat = req.pos := by
  rw [toNat_mul, toNat_setWidth, Nat.mod_eq_of_lt hblksize, toNat_sandevBlksize req hcount]
  have hprod : req.lba.toNat * (sandev.capacity.blksize.toNat * 2 ^ sandev.blksizeShift) =
      req.pos := by
    rw [SanRequest.pos, SanRequest.firstBlock]
    ring
  rw [hprod, Nat.mod_eq_of_lt hpos]

/-- The memory after the overrides.
[core/sanboot.c:655-699] -/
theorem overridden_eq_fill (sandiskOver : SandiskOver) (hbytes : req.pos + req.bytes < 2 ^ 64)
    (hlocs : ∀ loc ∈ sandiskOver.loc, loc.toNat + sandiskOver.len.toNat < 2 ^ 64)
    (mem : ByteMemory w) (content : ℕ → UInt8) :
    sandiskOver.loc.foldl
        (sandiskOverride (req.lba * (sandevBlksize sandev).setWidth 64)
          ((req.count.setWidth w * sandevBlksize sandev).setWidth 64) req.buffer sandiskOver)
        (fill mem req.buffer req.bytes content) =
      fill mem req.buffer req.bytes fun i =>
        SandiskOver.byteAt sandiskOver sandiskOver.loc (req.pos + i) (content i) := by
  have hlen := toNat_readLen req (by omega)
  by_cases hempty : req.bytes = 0
  · have hzero : (req.count.setWidth w * sandevBlksize sandev).setWidth 64 = 0 :=
      eq_of_toNat_eq (hlen.trans hempty)
    rw [hempty, fill_zero, fill_zero]
    exact foldl_fixed' (sandiskOverride_zero hzero _ _ _) _
  · have hcount : req.count ≠ 0 := by
      intro hcount
      simp [SanRequest.bytes, SanRequest.blocks, hcount] at hempty
    have hpos : 0 < req.count.toNat := (pos_iff_ne_zero _).2 hcount
    have hblksize : (sandevBlksize sandev).toNat ≤ req.bytes := by
      rw [toNat_sandevBlksize req hcount, SanRequest.bytes, SanRequest.blocks, mul_assoc,
        mul_comm (2 ^ _)]
      exact Nat.le_mul_of_pos_left _ hpos
    exact foldl_sandiskOverride (toNat_readSeek req hcount (by omega) (by omega)) hlen hbytes
      (Nat.le_of_lt req.fits) sandiskOver hlocs req.buffer mem content

/-- **Overridden reads.**  After a successful read every byte of the buffer is the replacement byte
of the last location that covers it, or else that of the disk; and no read writes outside of
the buffer.
[core/sanboot.c:596-701] -/
theorem sandev_read_overridden (req : SanRequest sandev) (sandiskOver : SandiskOver)
    (hblocks : req.blocks < 2 ^ 32) (hbytes : req.pos + req.bytes < 2 ^ 64)
    (hlocs : ∀ loc ∈ sandiskOver.loc, loc.toNat + sandiskOver.len.toNat < 2 ^ 64)
    (fuel sanRetries : ℕ) (world : SanWorld w) (attempts : List Attempt) (run : SanRun w)
    (h : sandevRead fuel sandev sanRetries sandiskOver req.lba req.count req.buffer world attempts =
      some run) :
    (run.rc = none → ∀ i < req.bytes, run.world.mem (serialAt req.buffer i) =
      SandiskOver.byteAt sandiskOver sandiskOver.loc (req.pos + i) (world.disk (req.pos + i))) ∧
    ∀ addr, req.bytes ≤ ahead req.buffer addr → run.world.mem addr = world.mem addr := by
  obtain ⟨raw, hraw, hrun⟩ := map_eq_some_iff.1 h
  have hreads := sandevRw_reads req hblocks hbytes hraw
  cases hrc : raw.rc with
  | some rc =>
    simp only [hrc] at hrun
    rw [← hrun, hrc]
    exact ⟨nofun, hreads.outside⟩
  | none =>
    simp only [hrc] at hrun
    have hmem : run.world.mem = fill world.mem req.buffer req.bytes fun i =>
        SandiskOver.byteAt sandiskOver sandiskOver.loc (req.pos + i)
          (world.disk (req.pos + i)) := by
      rw [← hrun, hreads.done hrc]
      exact overridden_eq_fill req sandiskOver hbytes hlocs _ _
    rw [hmem]
    exact ⟨fun _ i hi => fill_serialAt _ _ _ (Nat.le_of_lt req.fits) hi,
      fun addr haddr => fill_outside _ _ _ haddr⟩

end

/-- A device with blocks of 512 bytes that appear as blocks of `512 * 2 ^ shift` bytes. -/
def blocks512 (shift : ℕ) : SanDevice 64 where
  capacity := { blksize := 512#64, maxCount := 128#32 }
  blksizeShift := shift
  paths := 1

/-- A disk of zeroes, in front of a memory of sevens. -/
def zeroDisk : SanWorld 64 where
  mem := fun _ => 7
  disk := fun _ => 0

/-- A replacement buffer of ones. -/
def onesAt (len : BitVec 32) (loc : BitVec 64) : SandiskOver where
  buf := fun _ => 1
  len := len
  loc := [loc]
  cnt_le := by simp

/-- The status and the first byte of a read. -/
def firstByte (shift : ℕ) (sandiskOver : SandiskOver) (lba : BitVec 64) (count : BitVec 32) :
    Option (Option Errno × UInt8) :=
  (sandevRead 2 (blocks512 shift) 10 sandiskOver lba count 0x100000#64 zeroDisk []).map fun run =>
    (run.rc, run.world.mem 0x100000#64)

/-- Two blocks, the end of which is overridden. -/
def twoBlocks : SanRequest (blocks512 0) where
  lba := 16#64
  count := 2#32
  buffer := 0x100000#64
  fits := by decide

theorem sandev_read_overridden_twoBlocks :
    ∃ run, sandevRead 3 (blocks512 0) 10 (onesAt 100#32 9000#64) twoBlocks.lba twoBlocks.count
        twoBlocks.buffer zeroDisk [.initiateFails .eio] = some run ∧ run.rc = none ∧
      run.world.mem (serialAt twoBlocks.buffer 807) = 0 ∧
      run.world.mem (serialAt twoBlocks.buffer 808) = 1 := by
  have hreturns : (sandevRead 3 (blocks512 0) 10 (onesAt 100#32 9000#64) twoBlocks.lba
      twoBlocks.count twoBlocks.buffer zeroDisk [.initiateFails .eio]).map (fun run => run.rc) =
        some none := by decide +kernel
  obtain ⟨run, hrun, hrc⟩ := map_eq_some_iff.1 hreturns
  have hloc : ∀ loc ∈ (onesAt 100#32 9000#64).loc, loc.toNat + (100#32).toNat < 2 ^ 64 :=
    fun loc hloc => by
      rw [mem_singleton.1 hloc]
      decide
  have hread := (sandev_read_overridden twoBlocks (onesAt 100#32 9000#64) (by decide) (by decide)
    hloc 3 10 zeroDisk _ run hrun).1 hrc
  exact ⟨run, hrun, hrc, (hread 807 (by decide +kernel)).trans (by decide +kernel),
    (hread 808 (by decide +kernel)).trans (by decide +kernel)⟩

/-- **What is not so everywhere.**  A byte behind the first 2^64 of the disk is overridden by a
location at its start; a location that goes over that end does not override; and of
2^32 blocks none is read, with success.
[core/sanboot.c:608-612,657-668] -/
theorem sandev_read_not_overridden :
    (firstByte 0 (onesAt 512#32 0#64) 0x80000000000000#64 1#32 = some (none, 1) ∧
      SandiskOver.byteAt (onesAt 512#32 0#64) [0#64] (2 ^ 64) 0 = 0) ∧
    (firstByte 0 (onesAt 2048#32 0xfffffffffffffc00#64) 0x7ffffffffffffe#64 1#32 = some (none, 0) ∧
      SandiskOver.byteAt (onesAt 2048#32 0xfffffffffffffc00#64) [0xfffffffffffffc00#64] (2 ^ 64 - 1024) 0
        = 1) ∧
    (firstByte 2 (onesAt 512#32 4096#64) 0#64 0x40000000#32 = some (none, 7) ∧
      SandiskOver.byteAt (onesAt 512#32 4096#64) [4096#64] 0 0 = 0) := by
  decide +kernel

end Ipxe.Analysis
