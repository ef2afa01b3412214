import Ipxe.Model.Int13

/-!
# The geometry of an INT 13 drive

The sectors that a partition's start shows may exceed 63, and a drive smaller than one cylinder
gets no cylinder; any other drive is addressed without aliasing.
-/

namespace Ipxe.Analysis

open Model List

variable (partitions : List PartitionTableEntry) (mbr : MasterBootRecord) (drive : Int13Drive)

def usedPartitions (mbr : MasterBootRecord) : List PartitionTableEntry :=
  mbr.partitions.filter fun partition => partition.type ≠ 0

/-- One more than the largest head a partition ends on. -/
def shownHeads : List PartitionTableEntry → ℕ
  | [] => 0
  | partition :: rest => max (partHead partition.chsEnd + 1) (shownHeads rest)

/-- The sectors shown by partitions listed from the last to the first: a partition that starts on
cylinder 0 past head 0 replaces what those before it show. -/
def shownSectors : List PartitionTableEntry → ℕ
  | [] => 0
  | partition :: before =>
    let start := partition.chsStart
    max (partSector partition.chsEnd)
      (if partCylinder start = 0 ∧ partHead start ≠ 0 then
        (partition.start.toNat + 1 + (2 ^ 32 - partSector start)) % 2 ^ 32 / partHead start
      else shownSectors before)

/-- A number that is shown, or the default. -/
def orDefault (default shown : ℕ) : ℕ := if shown = 0 then default else shown

def tableHeads (mbr : MasterBootRecord) : ℕ := orDefault 255 (shownHeads (usedPartitions mbr))

def tableSectors (mbr : MasterBootRecord) : ℕ :=
  orDefault 63 (shownSectors (usedPartitions mbr).reverse)

/-- The drive holds a cylinder of the geometry it shows, and the sectors can be numbered. -/
def ShowsGeometry (drive : Int13Drive) : Prop :=
  if drive.isFdd then 36 ≤ drive.capacity.toNat
  else tableSectors drive.mbr ≤ 63 ∧
    tableHeads drive.mbr * tableSectors drive.mbr ≤ drive.capacity.toNat

/-- The geometry in the registers that get-parameters returns. -/
def geometryOfRegs (regs : Int13Regs) : Int13Data :=
  ⟨regs.chs.1 + 1, regs.chs.2.1 + 1, regs.chs.2.2⟩

/-- A geometry that can be expressed, is returned as it is, and addresses every block once. -/
structure Addressable (drive : Int13Drive) (int13 : Int13Data) : Prop where
  heads : 1 ≤ int13.heads ∧ int13.heads ≤ 256
  sectors : 1 ≤ int13.sectorsPerTrack ∧ int13.sectorsPerTrack ≤ 63
  cylinders : 1 ≤ int13.cylinders ∧ int13.cylinders ≤ 1024
  decodes : ∀ numDrives regs regs', int13GetParameters drive int13 numDrives regs = some regs' →
    geometryOfRegs regs' = int13
  distinct : ∀ regs regs' call call', int13RwSectors drive int13 regs = some call →
    int13RwSectors drive int13 regs' = some call' → call.1 = call'.1 → regs.chs = regs'.chs

theorem partSector_le (chs : PartitionChs) : partSector chs ≤ 63 := by
  exact Nat.and_le_right

theorem partHead_le (chs : PartitionChs) : partHead chs ≤ 255 := by
  have := chs.head.toNat_lt
  unfold partHead
  omega

theorem shownHeads_le : shownHeads partitions ≤ 256 := by
  induction partitions with
  | nil => exact Nat.zero_le _
  | cons partition rest ih =>
    have := partHead_le partition.chsEnd
    unfold shownHeads
    omega

theorem shownHeads_concat (partition : PartitionTableEntry) :
    shownHeads (partitions ++ [partition]) =
      max (partHead partition.chsEnd + 1) (shownHeads partitions) := by
  induction partitions with
  | nil => rfl
  | cons first rest ih =>
    rw [cons_append, shownHeads, ih, shownHeads, max_left_comm]

/-- The 32-bit difference in the words of the specification. -/
theorem toNat_start_sub (start : BitVec 32) {sector : ℕ} (h : sector ≤ 63) :
    (start + 1 - BitVec.ofNat 32 sector).toNat = (start.toNat + 1 + (2 ^ 32 - sector)) % 2 ^ 32 := by
  rw [BitVec.toNat_sub, BitVec.toNat_add, BitVec.toNat_ofNat]
  have hone : (1 : BitVec 32).toNat = 1 := rfl
  omega

theorem int13ScanPartition_shown (used : List PartitionTableEntry) (partition : PartitionTableEntry)
    (h : partition.type ≠ 0) :
    int13ScanPartition (shownHeads used, shownSectors used.reverse) partition =
      (shownHeads (used ++ [partition]), shownSectors (used ++ [partition]).reverse) := by
  rw [shownHeads_concat, reverse_append, reverse_singleton, singleton_append]
  unfold int13ScanPartition
  rw [if_neg h]
  simp only [toNat_start_sub _ (partSector_le _)]
  ext
  · exact (max_def_lt _ _).symm.trans (max_comm _ _)
  · exact (max_def_lt _ _).symm.trans (max_comm _ _)

theorem foldl_int13ScanPartition :
    partitions.foldl int13ScanPartition (0, 0) =
      (shownHeads (partitions.filter fun partition => partition.type ≠ 0),
        shownSectors (partitions.filter fun partition => partition.type ≠ 0).reverse) := by
  induction partitions using List.reverseRecOn with
  | nil => rfl
  | append_singleton before partition ih =>
    rw [foldl_append, ih, filter_append, foldl_cons]
    by_cases h : partition.type = 0
    · rw [filter_cons_of_neg (by simpa using h), filter_nil, append_nil]
      exact if_pos h
    · rw [filter_cons_of_pos (by simpa using h)]
      exact int13ScanPartition_shown _ partition h

theorem int13GuessGeometryHdd_eq :
    int13GuessGeometryHdd mbr = (tableHeads mbr, tableSectors mbr) := by
  unfold int13GuessGeometryHdd
  rw [foldl_int13ScanPartition]
  rfl

theorem tableHeads_bounds : 1 ≤ tableHeads mbr ∧ tableHeads mbr ≤ 256 := by
  have := shownHeads_le (usedPartitions mbr)
  unfold tableHeads orDefault
  split <;> omega

theorem one_le_tableSectors : 1 ≤ tableSectors mbr := by
  unfold tableSectors orDefault
  split <;> omega

theorem int13GuessGeometryFdd_bounds :
    (1 ≤ (int13GuessGeometryFdd drive).1 ∧ (int13GuessGeometryFdd drive).1 ≤ 256) ∧
      (1 ≤ (int13GuessGeometryFdd drive).2 ∧ (int13GuessGeometryFdd drive).2 ≤ 63) ∧
      ((int13GuessGeometryFdd drive).1 * (int13GuessGeometryFdd drive).2 ≤ drive.capacity.toNat ↔
        36 ≤ drive.capacity.toNat) := by
  have htable : ∀ geometry ∈ int13FddGeometries, (1 ≤ geometry.2.1 ∧ geometry.2.1 ≤ 256) ∧
      (1 ≤ geometry.2.2 ∧ geometry.2.2 ≤ 63) ∧
      geometry.2.1 * geometry.2.2 ≤ geometry.1 * geometry.2.1 * geometry.2.2 ∧
      36 ≤ geometry.1 * geometry.2.1 * geometry.2.2 := by
    decide
  unfold int13GuessGeometryFdd
  dsimp only
  split
  next geometry hfound =>
    have hsize := find?_some hfound
    obtain ⟨hheads, hsectors, hcyl, hleast⟩ := htable geometry (mem_of_find?_eq_some hfound)
    rw [decide_eq_true_eq] at hsize
    exact ⟨hheads, hsectors, by omega⟩
  next => omega

theorem regs_of_chs : ∀ high : Fin 4, ∀ sector : Fin 64,
    ((UInt8.ofNat (high.val <<< 6 ||| sector.val)) &&& 0xc0).toNat = high.val <<< 6 ∧
      ((UInt8.ofNat (high.val <<< 6 ||| sector.val)) &&& 0x3f).toNat = sector.val := by
  decide +kernel

theorem geometryOfRegs_int13GetParameters (int13 : Int13Data)
    (hheads : 1 ≤ int13.heads ∧ int13.heads ≤ 256) (hsectors : int13.sectorsPerTrack ≤ 63)
    (hcylinders : 1 ≤ int13.cylinders ∧ int13.cylinders ≤ 1024) (numDrives : UInt8)
    (regs regs' : Int13Regs) (h : int13GetParameters drive int13 numDrives regs = some regs') :
    geometryOfRegs regs' = int13 := by
  obtain ⟨cylinders, heads, sectors⟩ := int13
  dsimp only at hheads hsectors hcylinders
  have hcyl : (cylinders + 2 ^ 32 - 1) % 2 ^ 32 = cylinders - 1 := by omega
  have hhead : (heads + 2 ^ 32 - 1) % 2 ^ 32 = heads - 1 := by omega
  unfold int13GetParameters at h
  rw [hcyl, hhead] at h
  split at h
  · cases h
  cases h
  have hhigh : (cylinders - 1) >>> 8 < 4 := by
    omega
  obtain ⟨hhi, hlo⟩ := regs_of_chs ⟨_, hhigh⟩ ⟨sectors, by omega⟩
  have hch : (UInt8.ofNat (cylinders - 1 &&& 0xff)).toNat = (cylinders - 1) % 256 := by
    have hmask : cylinders - 1 &&& 0xff = (cylinders - 1) % 2 ^ 8 := Nat.and_two_pow_sub_one_eq_mod _ 8
    rw [UInt8.toNat_ofNat']
    omega
  have hdh : (UInt8.ofNat (heads - 1)).toNat = heads - 1 := by
    rw [UInt8.toNat_ofNat']
    omega
  have hjoin : ((cylinders - 1) >>> 8) <<< 6 <<< 2 ||| (cylinders - 1) % 256 = cylinders - 1 := by
    rw [← Nat.shiftLeft_add, ← Nat.shiftLeft_add_eq_or_of_lt (Nat.mod_lt _ (by decide)),
      Nat.shiftLeft_eq]
    omega
  unfold geometryOfRegs Int13Regs.chs
  rw [hhi, hlo, hch, hdh, hjoin, Nat.sub_add_cancel hcylinders.1, Nat.sub_add_cancel hheads.1]

/-- A number below the radix is found again under any multiple of it. -/
theorem digits_unique {radix high high' low low' : ℕ} (hlow : low < radix) (hlow' : low' < radix)
    (h : high * radix + low = high' * radix + low') : high = high' ∧ low = low' := by
  have hmod := congrArg (· % radix) h
  simp only [Nat.mul_add_mod', Nat.mod_eq_of_lt hlow, Nat.mod_eq_of_lt hlow'] at hmod
  rw [hmod, Nat.add_right_cancel_iff] at h
  exact ⟨Nat.eq_of_mul_eq_mul_right (by omega) h, hmod⟩

/-- What an accepted read or write says about its registers; nothing wraps. -/
theorem int13RwSectors_inv {drive : Int13Drive} {int13 : Int13Data} {regs : Int13Regs}
    {call : ℕ × ℕ × ℕ} (hheads : int13.heads ≤ 256) (hsectors : int13.sectorsPerTrack ≤ 63)
    (hcylinders : int13.cylinders ≤ 1024) (h : int13RwSectors drive int13 regs = some call) :
    regs.chs.2.1 < int13.heads ∧ 1 ≤ regs.chs.2.2 ∧ regs.chs.2.2 - 1 < int13.sectorsPerTrack ∧
      call.1 = (regs.chs.1 * int13.heads + regs.chs.2.1) * int13.sectorsPerTrack +
        (regs.chs.2.2 - 1) := by
  unfold int13RwSectors at h
  generalize regs.chs = chs at h ⊢
  obtain ⟨cylinder, head, sector⟩ := chs
  dsimp only at h ⊢
  split at h
  · cases h
  split at h
  next => cases h
  next hrange =>
    simp only [not_or, not_le, not_lt, gt_iff_lt] at hrange
    obtain ⟨hcyl, hhead, hone, hsector⟩ := hrange
    cases h
    have hrow : cylinder * int13.heads ≤ 1023 * 256 := Nat.mul_le_mul (by omega) hheads
    have htrack : (cylinder * int13.heads + head) * int13.sectorsPerTrack ≤ (1024 * 256) * 63 :=
      Nat.mul_le_mul (by omega) hsectors
    omega

theorem addressable_of_ranges (int13 : Int13Data) (hheads : 1 ≤ int13.heads ∧ int13.heads ≤ 256)
    (hsectors : 1 ≤ int13.sectorsPerTrack ∧ int13.sectorsPerTrack ≤ 63)
    (hcylinders : 1 ≤ int13.cylinders ∧ int13.cylinders ≤ 1024) : Addressable drive int13 where
  heads := hheads
  sectors := hsectors
  cylinders := hcylinders
  decodes := geometryOfRegs_int13GetParameters drive int13 hheads hsectors.2 hcylinders
  distinct := by
    intro regs regs' call call' hcall hcall' hlba
    obtain ⟨hhead, hone, hsector, hat⟩ := int13RwSectors_inv hheads.2 hsectors.2 hcylinders.2 hcall
    obtain ⟨hhead', hone', hsector', hat'⟩ :=
      int13RwSectors_inv hheads.2 hsectors.2 hcylinders.2 hcall'
    rw [hat, hat'] at hlba
    obtain ⟨htrack, hlast⟩ := digits_unique hsector hsector' hlba
    obtain ⟨hcyl, hsame⟩ := digits_unique hhead hhead' htrack
    ext
    · exact hcyl
    · exact hsame
    · omega

/-- Heads and sectors are divided into the capacity; the result is a geometry within the
ranges iff the sectors can be numbered and a whole cylinder fits. -/
theorem guess_in_ranges_iff {heads sectors : ℕ}
    (hguess : (if drive.isFdd then int13GuessGeometryFdd drive
      else int13GuessGeometryHdd drive.mbr) = (heads, sectors)) (hheads : 1 ≤ heads ∧ heads ≤ 256)
    (hsectors : 1 ≤ sectors) :
    (∃ int13, int13GuessGeometry drive {} = some int13 ∧ Addressable drive int13) ↔
      sectors ≤ 63 ∧ heads * sectors ≤ drive.capacity.toNat := by
  unfold int13GuessGeometry
  rw [hguess, if_pos rfl, if_pos rfl, if_pos rfl]
  dsimp only
  have hcapacity : ∀ size, size ≤ 256 * 63 →
      (size ≤ int13Capacity32 drive ↔ size ≤ drive.capacity.toNat) := by
    intro size hsize
    unfold int13Capacity32
    split <;> omega
  constructor
  · rintro ⟨int13, hsome, haddr⟩
    split at hsome
    · cases hsome
    cases hsome
    have hle : sectors ≤ 63 := haddr.sectors.2
    have hsmall : heads * sectors ≤ 256 * 63 := Nat.mul_le_mul hheads.2 hle
    have hcyl := haddr.cylinders.1
    dsimp only at hcyl
    rw [Nat.mod_eq_of_lt (show heads * sectors < 2 ^ 32 by omega)] at hcyl
    refine ⟨hle, (hcapacity _ hsmall).1 ?_⟩
    by_contra hlt
    rw [Nat.div_eq_of_lt (not_le.1 hlt)] at hcyl
    exact absurd hcyl (by decide)
  · rintro ⟨hle, hfits⟩
    have hsmall : heads * sectors ≤ 256 * 63 := Nat.mul_le_mul hheads.2 hle
    have hpos : 0 < heads * sectors := Nat.mul_pos hheads.1 hsectors
    rw [Nat.mod_eq_of_lt (show heads * sectors < 2 ^ 32 by omega), if_neg (Nat.ne_of_gt hpos)]
    refine ⟨_, rfl, addressable_of_ranges drive _ hheads ⟨hsectors, hle⟩ ?_⟩
    have hone := Nat.div_pos ((hcapacity _ hsmall).2 hfits) hpos
    dsimp only
    split <;> omega

/-- **INT 13 geometry**: a drive gets a geometry that the registers can express, is returned as it
is and addresses every block once, iff it holds a cylinder of the geometry it shows and the sectors
it shows can be numbered. -/
theorem int13_geometry (drive : Int13Drive) :
    (∃ int13, int13GuessGeometry drive {} = some int13 ∧ Addressable drive int13) ↔
      ShowsGeometry drive := by
  unfold ShowsGeometry
  cases hfdd : drive.isFdd with
  | true =>
    obtain ⟨hheads, hsectors, hfits⟩ := int13GuessGeometryFdd_bounds drive
    rw [← hfits, guess_in_ranges_iff drive (by rw [hfdd, if_pos rfl]) hheads hsectors.1]
    exact and_iff_right hsectors.2
  | false =>
    apply guess_in_ranges_iff drive _ (tableHeads_bounds drive.mbr) (one_le_tableSectors drive.mbr)
    rw [hfdd, if_neg Bool.false_ne_true, int13GuessGeometryHdd_eq]

/-- A hard disk drive whose partitions are of the given type, start at head 1 of cylinder 0 with
the given address, and end on head 255. -/
def firstTrackDrive (capacity : BitVec 64) (type : UInt8) (start : BitVec 32) : Int13Drive where
  isFdd := false
  capacity := capacity
  blksize := 512
  mbr := ⟨List.replicate 4 ⟨⟨1, 1, 0⟩, type, ⟨255, 63, 0⟩, start⟩, rfl⟩

/-- A partition said to start at block 2^24 makes 2^32 blocks a cylinder, and the guess divides by
zero; one at block 2048 gives 2048 sectors a track; and a drive of one block without partitions
has no cylinder. -/
theorem int13_geometry_firstTrack :
    (int13GuessGeometry (firstTrackDrive 0x2000000 0x83 0x1000000) {}).isNone ∧
      (int13GuessGeometry (firstTrackDrive 0x2000000 0x83 2048) {}).map Int13Data.sectorsPerTrack =
        some 2048 ∧
      (int13GuessGeometry (firstTrackDrive 1 0 0) {}).map Int13Data.cylinders = some 0 := by
  decide +kernel

end Ipxe.Analysis
