import Ipxe.Library.Runs
import Ipxe.Model.Tftp

/-!
# The blocks that are marked as received

As long as a file size has been recorded the bitmap has a bit for every block of it, unless the
block size becomes smaller or the bitmap is discarded behind its back.
-/

namespace Ipxe.Analysis

open Library Model Option

variable {allocs : TftpAllocations} {request : MtftpRequest}

variable {arch : Platform}

/-- The request and the block with which `tftp_rx_data` comes to mark the block, if it does. -/
def tftpMarked (arch : Platform) (allocs : TftpAllocations) (tftp : TftpRequest) (wire : ℕ)
    (data : Bytes) : Option (TftpRequest × ℕ) := do
  let tftp := { tftp with peer := true }
  let block ← tftpBlock tftp wire
  let offset := block * tftp.blksize % 2 ^ 32
  if tftp.blksize < data.length then none
  else
    let xfer ← (xferbufDeliver arch allocs.deliver tftp.xfer offset data).toOption
    match tftpPresize arch allocs { tftp with xfer := xfer }
        ((offset + data.length) % 2 ^ arch.sizeBits) with
    | (_, some _) => none
    | (tftp, none) => some (tftp, block)

/-- A block that is marked is below the length of the bitmap. -/
def MarksBelow (arch : Platform) (request : MtftpRequest) : MtftpEvent → Prop
  | .data allocs wire data => ∀ tftp block, request.tftp.status = .active →
      tftpMarked arch allocs request.tftp wire data = some (tftp, block) →
      block < tftp.bitmap.length
  | _ => True

/-- The number of blocks of a file is an `unsigned int`. -/
def BlocksFit (size blksize : ℕ) : Prop := size / blksize + 1 < 2 ^ 32

/-- Once a file size has been recorded, an OACK makes the block size smaller only with a greater
file size, and the bitmap is not discarded; an empty first block is not received before; and
numbers of blocks and offsets do not wrap. -/
def KeepsBitmap (arch : Platform) (request : MtftpRequest) : MtftpEvent → Prop
  | .oack _ options => ∀ blksize tsize,
      tftpProcessOptions arch (request.tftp.blksize, request.tftp.tsize) options =
        .ok (blksize, tsize) →
      (request.tftp.filesize = 0 ∨ request.tftp.blksize ≤ blksize ∨ request.tftp.filesize < tsize) ∧
        BlocksFit tsize blksize
  | .data _ wire data => ∀ block, tftpBlock { request.tftp with peer := true } wire = some block →
      (request.tftp.filesize ≠ 0 ∨ block * request.tftp.blksize + data.length ≠ 0) ∧
        block * request.tftp.blksize + data.length < 2 ^ 32 ∧
        BlocksFit (block * request.tftp.blksize + data.length) request.tftp.blksize
  | .timer _ _ => request.recovery = true → request.tftp.peer = false → 3 ≤ request.timeouts →
      request.tftp.filesize = 0
  | _ => True

/-- The bitmap has a bit for every block of the recorded file size. -/
def Covers (tftp : TftpRequest) : Prop :=
  tftp.filesize = 0 ∨ tftp.blksize ≠ 0 ∧ tftp.filesize / tftp.blksize < tftp.bitmap.length

/-! ## Steps -/

theorem tftpPresize_inv {tftp sized : TftpRequest} {size : ℕ}
    (h : tftpPresize arch allocs tftp size = (sized, none)) :
    sized.blksize = tftp.blksize ∧
      (size ≤ tftp.filesize ∧ sized = tftp ∨
        tftp.filesize < size ∧ tftp.blksize ≠ 0 ∧ sized.filesize = size ∧
          sized.bitmap.length = (size / tftp.blksize + 1) % 2 ^ 32) := by
  unfold tftpPresize at h
  split at h
  next hle =>
    cases h
    exact ⟨rfl, .inl ⟨hle, rfl⟩⟩
  next hlt =>
    dsimp only at h
    split at h
    · cases h
    next hne =>
      unfold bitmapResize at h
      dsimp only at h
      split at h
      · cases h
      next bitmap hresize =>
        cases h
        split at hresize
        · cases hresize
        · cases hresize
          exact ⟨rfl, .inr ⟨not_le.1 hlt, hne, rfl, rfl⟩⟩

theorem Covers.presize {tftp sized : TftpRequest} {size : ℕ}
    (h : tftpPresize arch allocs tftp size = (sized, none))
    (hfit : BlocksFit size tftp.blksize) (hcovers : size ≤ tftp.filesize → Covers tftp) :
    Covers sized := by
  obtain ⟨hblksize, ⟨hle, rfl⟩ | ⟨hlt, hne, hsize, hlen⟩⟩ := tftpPresize_inv h
  · exact hcovers hle
  · right
    rw [hblksize, hsize, hlen, Nat.mod_eq_of_lt hfit]
    exact ⟨hne, Nat.lt_succ_self _⟩

/-- What receiving data does, by whether it comes to mark a block. -/
theorem tftpRxData_marked (allocs : TftpAllocations) (tftp : TftpRequest) (wire : ℕ)
    (data : Bytes) :
    (∃ marked block, tftpMarked arch allocs tftp wire data = some (marked, block) ∧
      tftpRxData arch allocs tftp wire data = tftpMarkBlock arch marked block) ∨
    tftpMarked arch allocs tftp wire data = none ∧
      (tftpRxData arch allocs tftp wire data).1.status ≠ .active := by
  unfold tftpMarked tftpRxData
  dsimp only
  cases tftpBlock { tftp with peer := true } wire with
  | none => exact .inr ⟨rfl, TftpStatus.noConfusion⟩
  | some block =>
    dsimp only [bind_eq_bind, bind_some]
    unfold tftpRxBlock
    dsimp only
    split
    · exact .inr ⟨rfl, TftpStatus.noConfusion⟩
    cases xferbufDeliver arch allocs.deliver tftp.xfer (block * tftp.blksize % 2 ^ 32) data with
    | error rc => exact .inr ⟨rfl, TftpStatus.noConfusion⟩
    | ok xfer =>
      dsimp only [Except.toOption, bind_some]
      generalize tftpPresize arch allocs _ _ = sized
      obtain ⟨sized, _ | rc⟩ := sized
      · exact .inl ⟨sized, block, rfl, rfl⟩
      · exact .inr ⟨rfl, TftpStatus.noConfusion⟩

theorem tftpMarked_inv {tftp marked : TftpRequest} {wire block : ℕ} {data : Bytes}
    (h : tftpMarked arch allocs tftp wire data = some (marked, block)) :
    tftpBlock { tftp with peer := true } wire = some block ∧
      ∃ before : TftpRequest, before.filesize = tftp.filesize ∧ before.blksize = tftp.blksize ∧
        before.bitmap = tftp.bitmap ∧
        tftpPresize arch allocs before
          ((block * tftp.blksize % 2 ^ 32 + data.length) % 2 ^ arch.sizeBits) = (marked, none) := by
  obtain ⟨found, hblock, h⟩ := bind_eq_some_iff.1 h
  split at h
  · cases h
  obtain ⟨xfer, -, h⟩ := bind_eq_some_iff.1 h
  split at h
  · cases h
  next sized hsized =>
    cases h
    exact ⟨hblock, { tftp with peer := true, xfer := xfer }, rfl, rfl, rfl, hsized⟩

/-- A mark from a state whose bitmap covers the file size: the block is below the length, and the
file size is covered again. -/
theorem marked_covers {marked : TftpRequest} {wire block : ℕ} {data : Bytes}
    (hcovers : Covers request.tftp)
    (hsteady : KeepsBitmap arch request (.data allocs wire data))
    (h : tftpMarked arch allocs request.tftp wire data = some (marked, block)) :
    block < marked.bitmap.length ∧ Covers marked := by
  obtain ⟨hblock, before, hfilesize, hblksize, hbitmap, hsized⟩ := tftpMarked_inv h
  obtain ⟨hnonempty, hsmall, hfit⟩ := hsteady block hblock
  have hrange : 2 ^ 32 ≤ 2 ^ arch.sizeBits := Nat.pow_le_pow_right (by decide) (le_sizeBits arch)
  rw [Nat.mod_eq_of_lt (show block * request.tftp.blksize < 2 ^ 32 by omega),
    Nat.mod_eq_of_lt (by omega)] at hsized
  have hat : request.tftp.blksize ≠ 0 →
      block ≤ (block * request.tftp.blksize + data.length) / request.tftp.blksize := by
    intro hne
    rw [Nat.le_div_iff_mul_le (Nat.pos_of_ne_zero hne)]
    exact Nat.le_add_right _ _
  have hbefore : Covers before := by
    unfold Covers
    rw [hfilesize, hblksize, hbitmap]
    exact hcovers
  refine ⟨?_, Covers.presize hsized (by rw [hblksize]; exact hfit) fun _ => hbefore⟩
  obtain ⟨-, ⟨hle, rfl⟩ | ⟨-, hne, -, hlen⟩⟩ := tftpPresize_inv hsized
  · rw [hfilesize] at hle
    obtain hzero | ⟨hne, hlt⟩ := hcovers
    · omega
    · rw [hbitmap]
      calc block ≤ (block * request.tftp.blksize + data.length) / request.tftp.blksize := hat hne
        _ ≤ request.tftp.filesize / request.tftp.blksize := Nat.div_le_div_right hle
        _ < request.tftp.bitmap.length := hlt
  · rw [hlen, hblksize, Nat.mod_eq_of_lt hfit]
    exact Nat.lt_succ_of_le (hat (hblksize ▸ hne))

theorem Covers.oack {options : List TftpOption} (hcovers : Covers request.tftp)
    (hsteady : KeepsBitmap arch request (.oack allocs options))
    (hactive : (tftpRxOack arch allocs request.tftp options).1.status = .active) :
    Covers (tftpRxOack arch allocs request.tftp options).1 := by
  unfold tftpRxOack at hactive ⊢
  dsimp only at hactive ⊢
  split at hactive
  · cases hactive
  next sizes hsizes =>
    obtain ⟨hsmaller, hfit⟩ := hsteady sizes.1 sizes.2 hsizes
    have hkept : ¬request.tftp.filesize < sizes.2 →
        Covers { request.tftp with peer := true, blksize := sizes.1, tsize := sizes.2 } := by
      intro hnot
      obtain hzero | ⟨hne, hlt⟩ := hcovers
      · exact .inl hzero
      · rcases hsmaller with hzero | hle | hless
        · exact .inl hzero
        · right
          refine ⟨?_, lt_of_le_of_lt (Nat.div_le_div_left hle (Nat.pos_of_ne_zero hne)) hlt⟩
          dsimp only
          omega
        · exact absurd hless hnot
    by_cases hzero : sizes.2 = 0
    · rw [if_neg (not_not.2 hzero)]
      exact hkept (by omega)
    · rw [if_pos hzero] at hactive ⊢
      generalize hsized : tftpPresize arch allocs _ sizes.2 = sized at hactive ⊢
      obtain ⟨sized, _ | rc⟩ := sized
      · exact Covers.presize hsized hfit fun hle => hkept (not_lt.2 hle)
      · cases hactive

theorem Covers.timer (opened : Option Errno) (fail : Bool) (hcovers : Covers request.tftp)
    (hsteady : KeepsBitmap arch request (.timer opened fail)) :
    Covers (mtftpTimerExpired opened fail request).tftp := by
  have hreopen : ∀ tftp, Covers tftp → Covers (tftpReopen opened tftp) := by
    intro tftp h
    cases opened with
    | none => exact h
    | some rc => exact h
  unfold mtftpTimerExpired
  split
  next hrecovery =>
    split
    · exact hreopen _ hcovers
    next hpeer =>
      dsimp only
      split
      next hlate =>
        apply hreopen
        exact .inl (hsteady hrecovery (Bool.eq_false_iff.2 hpeer) (by omega))
      · exact hcovers
  · unfold tftpTimerExpired
    split
    · exact hcovers
    · exact hcovers

/-- A step from an active request keeps the file size covered. -/
theorem Covers.step {event : MtftpEvent}
    (hcovers : request.tftp.status = .active → Covers request.tftp)
    (hsteady : KeepsBitmap arch request event)
    (hactive : (mtftpStep arch request event).tftp.status = .active) :
    Covers (mtftpStep arch request event).tftp := by
  unfold mtftpStep at hactive ⊢
  split
  next hdone =>
    rw [if_pos hdone] at hactive
    exact absurd hactive hdone
  next hstill =>
    rw [if_neg hstill] at hactive
    specialize hcovers (not_not.1 hstill)
    cases event with
    | oack allocs options => exact Covers.oack hcovers hsteady hactive
    | multicast rc => cases hactive
    | data allocs wire data =>
      obtain ⟨marked, block, hmarked, hrx⟩ | ⟨-, hfailed⟩ :=
        @tftpRxData_marked arch allocs request.tftp wire data
      · dsimp only
        rw [hrx]
        have hmarks := (marked_covers hcovers hsteady hmarked).2
        unfold tftpMarkBlock
        dsimp only
        split
        · exact hmarks
        · exact hmarks
      · exact absurd hactive hfailed
    | error errcode => cases hactive
    | timer opened fail => exact Covers.timer opened fail hcovers hsteady

/-- **TFTP bitmap safety**: in every run whose events are steady, each block that is marked as
received is below the length of the bitmap. -/
theorem mtftp_bitmap_bounds (arch : Platform) (recovery : Bool) (events : List MtftpEvent)
    (h : Meets (mtftpStep arch) (KeepsBitmap arch) { recovery := recovery } events) :
    Meets (mtftpStep arch) (MarksBelow arch) { recovery := recovery } events := by
  refine h.imp (fun request event hcovers hevent => Covers.step hcovers hevent)
    (fun request event hcovers hevent => ?_) fun _ => .inl rfl
  cases event with
  | data allocs wire data =>
    intro tftp block hactive hmarked
    exact (marked_covers (hcovers hactive) hevent hmarked).1
  | _ => exact trivial

/-- A file of three bytes in one block, without a known size. -/
theorem mtftp_bitmap_bounds_oneBlock :
    Meets (mtftpStep .x64) (MarksBelow .x64) { recovery := true } [.data {} 1 [1, 2, 3]] := by
  apply mtftp_bitmap_bounds
  refine ⟨?_, trivial⟩
  intro block hblock
  cases hblock
  unfold BlocksFit
  decide

/-- The block and the length of the bitmap when a first data block is marked after some events. -/
def firstMark (recovery : Bool) (before : List MtftpEvent) (wire : ℕ) (data : Bytes) :
    Option (ℕ × ℕ) :=
  let request := run (mtftpStep .x64) { recovery := recovery } before
  (tftpMarked .x64 {} request.tftp wire data).map fun marked => (marked.2, marked.1.bitmap.length)

/-- The empty file; a second OACK with a smaller block size; and the fall-back to plain TFTP after
a block has been received. -/
theorem mtftp_bitmap_bounds_broken :
    firstMark false [] 1 [] = some (0, 0) ∧
      firstMark false [.oack {} [.blksize "4".toUTF8.toList, .tsize "5".toUTF8.toList],
        .oack {} [.blksize "1".toUTF8.toList]] 3 [7] = some (2, 2) ∧
      firstMark true ([.oack {} [.tsize "9".toUTF8.toList]] ++ List.replicate 5 (.timer none false)) 1
        [7] = some (0, 0) := by
  decide +kernel

end Ipxe.Analysis
