import Ipxe.Interface.SanAccess

/-!
# Splitting of SAN requests

The loop of `sandev_rw` goes through the blocks of a request exactly if they can be counted with 32
bits and numbered with 64 and the device takes at least one block at a time.
-/

namespace Ipxe.Analysis

open Library Model Interface List BitVec

section

variable {w : ℕ} {sandev : SanDevice w}

theorem fragLen_eq (sandev : SanDevice w) (count : BitVec 32) :
    count.setWidth w * sandev.capacity.blksize =
      BitVec.ofNat w (count.toNat * sandev.capacity.blksize.toNat) := by
  apply eq_of_toNat_eq
  rw [toNat_mul, toNat_setWidth, toNat_ofNat, Nat.mod_mul_mod]

variable {params : SanCommandRwParams w}

theorem rwLen_eq
    (h : params.count.toNat * sandev.capacity.blksize.toNat < 2 ^ w) :
    rwLen sandev params = params.count.toNat * sandev.capacity.blksize.toNat := by
  rw [rwLen, fragLen_eq, toNat_ofNat, Nat.mod_eq_of_lt h]

variable (req : SanRequest sandev)

theorem lba_shift : req.lba <<< sandev.blksizeShift = BitVec.ofNat 64 req.firstBlock := by
  apply eq_of_toNat_eq
  rw [toNat_shiftLeft, Nat.shiftLeft_eq, toNat_ofNat, SanRequest.firstBlock]

theorem toNat_count_shift : (req.count <<< sandev.blksizeShift).toNat = req.blocks % 2 ^ 32 := by
  rw [toNat_shiftLeft, Nat.shiftLeft_eq, SanRequest.blocks]

def fragment (params : SanCommandRwParams w) (remaining : BitVec 32) : SanCommandRwParams w :=
  if params.count > remaining then { params with count := remaining } else params

def nextFragment (sandev : SanDevice w) (params : SanCommandRwParams w) : SanCommandRwParams w :=
  { params with
    buffer := params.buffer + sandev.capacity.blksize * params.count.setWidth w
    lba := params.lba + params.count.setWidth 64 }

section

variable (params : SanCommandRwParams w)

variable (remaining : BitVec 32)

theorem fragment_count :
    (fragment params remaining).count.toNat = min params.count.toNat remaining.toNat := by
  unfold fragment
  split_ifs with h
  · exact (min_eq_right (le_of_lt h)).symm
  · exact (min_eq_left (not_lt.1 h)).symm

theorem fragment_buffer : (fragment params remaining).buffer = params.buffer := by
  unfold fragment
  split_ifs <;> rfl

theorem fragment_lba : (fragment params remaining).lba = params.lba := by
  unfold fragment
  split_ifs <;> rfl

theorem toNat_remaining :
    (remaining - (fragment params remaining).count).toNat =
      remaining.toNat - min params.count.toNat remaining.toNat := by
  have hcount := fragment_count params remaining
  rw [toNat_sub_of_le, hcount]
  rw [le_def, hcount]
  exact min_le_right _ _

end

section

variable {sanRetries : ℕ} {blockRw : BlockRw} {fuel : ℕ} {params : SanCommandRwParams w}
  {remaining : BitVec 32} {world : SanWorld w} {attempts : List Attempt}

theorem sandevRwLoop_done (h : remaining = 0) :
    sandevRwLoop sandev sanRetries blockRw (fuel + 1) params remaining world attempts =
      some ⟨⟨none, world, attempts⟩, []⟩ := by
  rw [sandevRwLoop, if_pos h]

/-- One turn of the loop.
[core/sanboot.c:615-631] -/
theorem sandevRwLoop_succ (h : remaining ≠ 0) :
    sandevRwLoop sandev sanRetries blockRw (fuel + 1) params remaining world attempts =
      let status := sandevCommand sandev sanRetries blockRw (fragment params remaining) attempts 0
        world
      match status.rc with
      | some _ => some ⟨status, [fragment params remaining]⟩
      | none =>
        (sandevRwLoop sandev sanRetries blockRw fuel (nextFragment sandev (fragment params remaining))
          (remaining - (fragment params remaining).count) status.world status.attempts).map
            fun run => { run with issued := fragment params remaining :: run.issued } := by
  rw [sandevRwLoop, if_neg h]
  rfl

end

/-- The loop has gone through the first `done` blocks of a request. -/
structure GoneThrough (req : SanRequest sandev) (done : ℕ) (params : SanCommandRwParams w)
    (remaining : BitVec 32) : Prop where
  lba : params.lba = BitVec.ofNat 64 (req.firstBlock + done)
  buffer : params.buffer = serialAt req.buffer (done * sandev.capacity.blksize.toNat)
  count_pos : remaining ≠ 0 → 0 < params.count.toNat
  count_le : params.count ≤ sandev.capacity.maxCount
  rest : done + remaining.toNat = req.blocks

section

variable {req : SanRequest sandev} {done : ℕ} {params : SanCommandRwParams w}
  {remaining : BitVec 32}

variable (h : GoneThrough req done params remaining)

include h

theorem GoneThrough.next (hrem : remaining ≠ 0) :
    GoneThrough req (done + (fragment params remaining).count.toNat)
      (nextFragment sandev (fragment params remaining))
      (remaining - (fragment params remaining).count) where
  lba := by
    simp only [nextFragment, fragment_lba, h.lba]
    rw [← add_assoc, ofNat_add (req.firstBlock + done), ofNat_toNat]
  buffer := by
    simp only [nextFragment, fragment_buffer, h.buffer]
    rw [BitVec.mul_comm, fragLen_eq, serialAt_add, Nat.add_mul]
  count_pos := fun hnext => by
    have hcount := fragment_count params remaining
    have hpos := h.count_pos hrem
    have hrest := toNat_remaining params remaining
    have hne : (remaining - (fragment params remaining).count).toNat ≠ 0 := toNat_ne.1 hnext
    simp only [nextFragment]
    omega
  count_le := by
    have hle := h.count_le
    have hcount := fragment_count params remaining
    rw [le_def] at hle ⊢
    simp only [nextFragment]
    omega
  rest := by
    have hcount := fragment_count params remaining
    have hrest := toNat_remaining params remaining
    have hsum := h.rest
    omega

theorem GoneThrough.goesThrough (hrem : remaining ≠ 0)
    (hfits : req.firstBlock + req.blocks ≤ 2 ^ 64) {commands : List (SanCommandRwParams w)}
    (hrest : GoesThrough req (done + (fragment params remaining).count.toNat) commands) :
    GoesThrough req done (fragment params remaining :: commands) := by
  have hcount := fragment_count params remaining
  have hpos := h.count_pos hrem
  have hrem' : remaining.toNat ≠ 0 := toNat_ne.1 hrem
  have hsum := h.rest
  have hlba : (fragment params remaining).lba.toNat = req.firstBlock + done := by
    rw [fragment_lba, h.lba, toNat_ofNat, Nat.mod_eq_of_lt (by omega)]
  have hle := h.count_le
  rw [le_def] at hle
  have hbytes : (fragment params remaining).count.toNat * sandev.capacity.blksize.toNat < 2 ^ w := by
    refine lt_of_le_of_lt (Nat.mul_le_mul_right _ ?_) req.fits
    change _ ≤ req.blocks
    omega
  refine ⟨hlba, by omega, ?_, rwLen_eq hbytes, by omega, ?_, hrest⟩
  · rw [fragment_buffer, h.buffer]
  · rw [le_def]
    omega

/-- **The loop executes the commands that go through the blocks**, and needs no more turns
than there are blocks. -/
theorem GoneThrough.splits (hfits : remaining ≠ 0 → req.firstBlock + req.blocks ≤ 2 ^ 64)
    (sanRetries : ℕ) (blockRw : BlockRw) :
    ∃ commands, GoesThrough req done commands ∧
      ∀ fuel world attempts, remaining.toNat < fuel → ∃ run,
        sandevRwLoop sandev sanRetries blockRw fuel params remaining world attempts = some run ∧
        run.issued <+: commands ∧ (run.rc = none → run.issued = commands) := by
  induction hn : remaining.toNat using Nat.strong_induction_on generalizing done params remaining with
  | h n ih =>
    by_cases hrem : remaining = 0
    · refine ⟨[], ?_, fun fuel world attempts hfuel => ?_⟩
      · have hsum := h.rest
        rw [hrem] at hsum
        exact hsum
      · obtain ⟨fuel, rfl⟩ := Nat.exists_eq_add_one_of_ne_zero (Nat.ne_of_gt (Nat.zero_lt_of_lt hfuel))
        exact ⟨_, sandevRwLoop_done hrem, prefix_refl _, fun _ => rfl⟩
    · have hpos := h.count_pos hrem
      have hrem' : remaining.toNat ≠ 0 := toNat_ne.1 hrem
      have hleft := toNat_remaining params remaining
      obtain ⟨commands, hgoes, hloop⟩ := ih _ (by omega) (h.next hrem) (fun _ => hfits hrem) rfl
      refine ⟨fragment params remaining :: commands, h.goesThrough hrem (hfits hrem) hgoes,
        fun fuel world attempts hfuel => ?_⟩
      obtain ⟨fuel, rfl⟩ := Nat.exists_eq_add_one_of_ne_zero (Nat.ne_of_gt (Nat.zero_lt_of_lt hfuel))
      rw [sandevRwLoop_succ hrem]
      generalize sandevCommand sandev sanRetries blockRw (fragment params remaining) attempts 0 world
        = status
      cases hrc : status.rc with
      | some rc =>
        simp only [hrc]
        exact ⟨_, rfl, (prefix_cons_inj _).2 nil_prefix, fun h0 => by simp [hrc] at h0⟩
      | none =>
        simp only [hrc]
        obtain ⟨run, hrun, hissued, hall⟩ := hloop fuel status.world status.attempts (by omega)
        rw [hrun]
        exact ⟨_, rfl, (prefix_cons_inj _).2 hissued,
          fun h0 => congrArg (fragment params remaining :: ·) (hall h0)⟩

end

section

variable {req : SanRequest sandev} {commands : List (SanCommandRwParams w)}

theorem goesThrough_sum {done : ℕ} (h : GoesThrough req done commands) :
    done + (commands.map fun params => params.count.toNat).sum = req.blocks := by
  induction commands generalizing done with
  | nil => exact h
  | cons params commands ih =>
    obtain ⟨-, -, -, -, -, -, hrest⟩ := h
    rw [map_cons, sum_cons, ← add_assoc]
    exact ih hrest

theorem goesThrough_numbered {done : ℕ} {params : SanCommandRwParams w}
    (h : GoesThrough req done (params :: commands)) :
    req.firstBlock + req.blocks ≤ 2 ^ 64 := by
  induction commands generalizing done params with
  | nil =>
    obtain ⟨hlba, hle, -, -, -, -, hdone⟩ := h
    have hend : done + params.count.toNat = req.blocks := hdone
    omega
  | cons next commands ih =>
    obtain ⟨-, -, -, -, -, -, hrest⟩ := h
    exact ih hrest

/-- When nothing goes wrong the loop returns zero and the counts of its commands add up. -/
theorem sandevRwLoop_sum {sanRetries : ℕ} {blockRw : BlockRw} {fuel : ℕ}
    {params : SanCommandRwParams w} {remaining : BitVec 32} {world : SanWorld w} {run : SanRun w}
    (h : sandevRwLoop sandev sanRetries blockRw fuel params remaining world [] = some run) :
    run.rc = none ∧ (run.issued.map fun params => params.count.toNat).sum = remaining.toNat := by
  induction fuel generalizing params remaining world run with
  | zero => exact absurd h nofun
  | succ fuel ih =>
    by_cases hrem : remaining = 0
    · rw [sandevRwLoop_done hrem] at h
      rw [← Option.some.inj h, hrem]
      exact ⟨rfl, rfl⟩
    · rw [sandevRwLoop_succ hrem] at h
      obtain ⟨rest, hrest, rfl⟩ := Option.map_eq_some_iff.1 h
      obtain ⟨hrc, hsum⟩ := ih hrest
      have hcount := fragment_count params remaining
      have hleft := toNat_remaining params remaining
      refine ⟨hrc, ?_⟩
      rw [map_cons, sum_cons]
      omega

end

/-- **Splitting of SAN requests.**  A request is split into commands that go through its blocks,
whatever happens to them, exactly if nothing is requested, or the device takes at least one block
and the underlying blocks can be counted with 32 bits and numbered with 64.
[core/sanboot.c:508-566,596-634] -/
theorem sandev_rw_splits (req : SanRequest sandev) (sanRetries : ℕ) (blockRw : BlockRw) :
    Splits req sanRetries blockRw ↔ req.Countable := by
  constructor
  · rintro ⟨commands, hgoes, hruns⟩
    obtain ⟨fuel, run, hrun, -, hall⟩ := hruns ⟨fun _ => 0, fun _ => 0⟩ []
    obtain ⟨hrc, hsum⟩ := sandevRwLoop_sum hrun
    rw [hall hrc] at hsum
    have hblocks := goesThrough_sum hgoes
    cases commands with
    | nil =>
      have hzero : req.blocks = 0 := hgoes.symm
      have hcount := (Nat.mul_eq_zero.1 hzero).resolve_right (Nat.two_pow_pos _).ne'
      exact .inl (eq_of_toNat_eq hcount)
    | cons params commands =>
      have hnumbered := goesThrough_numbered hgoes
      obtain ⟨-, -, -, -, hpos, hle, -⟩ := hgoes
      refine .inr ⟨fun hmax => ?_, ?_, hnumbered⟩
      · rw [hmax] at hle
        exact absurd hle (not_le.2 hpos)
      · omega
  · intro hcountable
    -- without a request nothing remains, and the lengths do not matter
    have hcounted : (req.count <<< sandev.blksizeShift).toNat = req.blocks := by
      rw [toNat_count_shift]
      rcases hcountable with hnone | ⟨-, hblocks, -⟩
      · rw [SanRequest.blocks, hnone, ofNat_eq_ofNat, toNat_ofNat, Nat.zero_mul, Nat.zero_mod]
      · exact Nat.mod_eq_of_lt hblocks
    have hsome : req.count <<< sandev.blksizeShift ≠ 0 → sandev.capacity.maxCount ≠ 0 ∧
        req.firstBlock + req.blocks ≤ 2 ^ 64 := by
      intro hne
      rcases hcountable with hnone | ⟨hmax, -, hnumbered⟩
      · rw [hnone] at hne
        exact absurd (zero_shiftLeft _) hne
      · exact ⟨hmax, hnumbered⟩
    have hgone : GoneThrough req 0 ⟨req.buffer, req.lba <<< sandev.blksizeShift,
        sandev.capacity.maxCount⟩ (req.count <<< sandev.blksizeShift) := by
      refine ⟨lba_shift req, ?_, fun hne => ?_, BitVec.le_refl _, ?_⟩
      · rw [Nat.zero_mul, serialAt, BitVec.add_zero]
      · exact (pos_iff_ne_zero _).2 (hsome hne).1
      · rw [zero_add, hcounted]
    obtain ⟨commands, hgoes, hloop⟩ := hgone.splits (fun hne => (hsome hne).2) sanRetries blockRw
    exact ⟨commands, hgoes, fun world attempts =>
      ⟨_, hloop _ world attempts (Nat.lt_succ_self _)⟩⟩

/-- A command for no blocks is executed over and over.
[core/sanboot.c:615-631] -/
theorem sandevRwLoop_stuck (hcount : params.count = 0)
    {remaining : BitVec 32} (hrem : remaining ≠ 0) (sanRetries : ℕ) (blockRw : BlockRw) (fuel : ℕ)
    (world : SanWorld w) :
    sandevRwLoop sandev sanRetries blockRw fuel params remaining world [] = none := by
  induction fuel generalizing params world with
  | zero => rfl
  | succ fuel ih =>
    have hfragment : (fragment params remaining).count = 0 := by
      apply eq_of_toNat_eq
      rw [fragment_count, hcount]
      exact Nat.zero_min _
    have hnext : (nextFragment sandev (fragment params remaining)).count = 0 := hfragment
    rw [sandevRwLoop_succ hrem]
    simp only [sandevCommand]
    rw [hfragment, sub_zero, ih hnext]
    rfl

end

/-- A target with blocks of 4096 bytes and bursts of 512. -/
def smallBurst : SanDevice 32 where
  capacity := iscsiScsiCapacity 512#32 { blksize := 4096#32, maxCount := 0xffffffff#32 }
  blksizeShift := 0
  paths := 1

def oneBlock : SanRequest smallBurst where
  lba := 0#64
  count := 1#32
  buffer := 0x100000#32
  fits := by decide

/-- **A request that never returns**, although every command succeeds.
[net/tcp/iscsi.c:1894-1904] -/
theorem sandev_rw_stuck :
    smallBurst.capacity.maxCount = 0 ∧ ¬ Splits oneBlock 10 .read ∧
      ∀ fuel, sandevRw fuel smallBurst 10 oneBlock.lba oneBlock.count oneBlock.buffer .read
        ⟨fun _ => 0, fun _ => 0⟩ [] = none := by
  have hstuck : ∀ fuel world, sandevRw fuel smallBurst 10 oneBlock.lba oneBlock.count
      oneBlock.buffer .read world [] = none :=
    fun fuel world => sandevRwLoop_stuck (by decide) (by decide) 10 .read fuel world
  refine ⟨by decide, ?_, fun fuel => hstuck fuel _⟩
  rintro ⟨commands, -, hruns⟩
  obtain ⟨fuel, run, hrun, -⟩ := hruns ⟨fun _ => 0, fun _ => 0⟩ []
  rw [hstuck] at hrun
  cases hrun

end Ipxe.Analysis
