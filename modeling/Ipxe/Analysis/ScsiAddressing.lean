import Ipxe.Model.Scsi

/-!
# The blocks that a SCSI command denotes

A command is built in its short form, with a count of 16 bits, if the last block has a number of 32
bits, however many blocks there are.
-/

namespace Ipxe.Analysis

open Library Model List

variable {w : ℕ}

/-- A field of a descriptor block. -/
def cdbField (cdb : Bytes) (first count : ℕ) : ℕ := bigEndianValue ((cdb.drop first).take count)

/-- What the standard makes of a READ or WRITE descriptor block: the first block and the number
of blocks, at their places in the form with 10 bytes and in that with 16. -/
def scsiDecode (cdb : Bytes) : Option (BlockRw × ℕ × ℕ) :=
  if cdb.head? = some 0x28 then some (.read, cdbField cdb 2 4, cdbField cdb 7 2)
  else if cdb.head? = some 0x2a then some (.write, cdbField cdb 2 4, cdbField cdb 7 2)
  else if cdb.head? = some 0x88 then some (.read, cdbField cdb 2 8, cdbField cdb 10 4)
  else if cdb.head? = some 0x8a then some (.write, cdbField cdb 2 8, cdbField cdb 10 4)
  else none

/-- A request as the SAN layer may issue it: inside of the reported capacity, and not longer than
the reported maximum. -/
structure ScsiRequest (w : ℕ) extends ScsiCommand w where
  transport : ScsiCapacity w → ScsiCapacity w
  answer : ScsiCapacityData
  capacity : ScsiCapacity w
  reported : scsicmdReadCapacityDone transport answer = some capacity
  inside : lba.toNat + count.toNat ≤ capacity.blocks.toNat
  count_le : count ≤ capacity.maxCount

variable (scsicmd : ScsiCommand w)

def scsiRwCmd : BlockRw → ScsiCmd w
  | .read => scsicmdReadCmd scsicmd
  | .write => scsicmdWriteCmd scsicmd

theorem cdbField_bigEndian {front back : Bytes} {first count value : ℕ}
    (hfront : front.length = first) :
    cdbField (front ++ bigEndian count value ++ back) first count = value % 256 ^ count := by
  unfold cdbField
  rw [append_assoc, drop_left' hfront, take_left' (length_bigEndian _ _), bigEndianValue_bigEndian]

theorem long_iff {scsicmd : ScsiCommand w}
    (hroom : scsicmd.lba.toNat + scsicmd.count.toNat < 2 ^ 64) :
    scsicmd.lba + scsicmd.count.setWidth 64 > scsiMaxBlock10 ↔
      2 ^ 32 ≤ scsicmd.lba.toNat + scsicmd.count.toNat := by
  have hmax : scsiMaxBlock10.toNat = 2 ^ 32 - 1 := rfl
  rw [gt_iff_lt, BitVec.lt_def, BitVec.toNat_add, BitVec.toNat_setWidth]
  omega

section

variable {opcode10 opcode16 : UInt8} {scsicmd : ScsiCommand w}

theorem scsiRwCdb_short (hsum : scsicmd.lba.toNat + scsicmd.count.toNat < 2 ^ 32) :
    (scsiRwCdb opcode10 opcode16 scsicmd).head? = some opcode10 ∧
      cdbField (scsiRwCdb opcode10 opcode16 scsicmd) 2 4 = scsicmd.lba.toNat ∧
      cdbField (scsiRwCdb opcode10 opcode16 scsicmd) 7 2 = scsicmd.count.toNat % 2 ^ 16 := by
  unfold scsiRwCdb
  rw [if_neg (mt (long_iff (by omega)).1 (not_le.2 hsum))]
  refine ⟨rfl, ?_, ?_⟩
  · have hfield := @cdbField_bigEndian [opcode10, 0]
      ([0] ++ bigEndian 2 scsicmd.count.toNat ++ [0] ++ replicate 6 0) 2 4 scsicmd.lba.toNat rfl
    rwa [Nat.mod_eq_of_lt (by omega)] at hfield
  · exact @cdbField_bigEndian ([opcode10, 0] ++ bigEndian 4 scsicmd.lba.toNat ++ [0])
      ([0] ++ replicate 6 0) 7 2 _ (by simp)

theorem scsiRwCdb_long (hsum : 2 ^ 32 ≤ scsicmd.lba.toNat + scsicmd.count.toNat)
    (hroom : scsicmd.lba.toNat + scsicmd.count.toNat < 2 ^ 64) :
    (scsiRwCdb opcode10 opcode16 scsicmd).head? = some opcode16 ∧
      cdbField (scsiRwCdb opcode10 opcode16 scsicmd) 2 8 = scsicmd.lba.toNat ∧
      cdbField (scsiRwCdb opcode10 opcode16 scsicmd) 10 4 = scsicmd.count.toNat := by
  unfold scsiRwCdb
  rw [if_pos ((long_iff hroom).2 hsum)]
  refine ⟨rfl, ?_, ?_⟩
  · have hfield := @cdbField_bigEndian [opcode16, 0]
      (bigEndian 4 scsicmd.count.toNat ++ [0, 0]) 2 8 scsicmd.lba.toNat rfl
    rwa [Nat.mod_eq_of_lt (by omega)] at hfield
  · have hfield := @cdbField_bigEndian ([opcode16, 0] ++ bigEndian 8 scsicmd.lba.toNat)
      [0, 0] 10 4 scsicmd.count.toNat (by simp)
    rwa [Nat.mod_eq_of_lt (by omega)] at hfield

end

theorem scsiDecode_scsiRwCmd (rw : BlockRw)
    (hroom : scsicmd.lba.toNat + scsicmd.count.toNat < 2 ^ 64) :
    scsiDecode (scsiRwCmd scsicmd rw).cdb = some (rw, scsicmd.lba.toNat,
      if scsicmd.lba.toNat + scsicmd.count.toNat < 2 ^ 32 then scsicmd.count.toNat % 2 ^ 16
      else scsicmd.count.toNat) := by
  unfold scsiDecode
  by_cases hsum : scsicmd.lba.toNat + scsicmd.count.toNat < 2 ^ 32
  · rw [if_pos hsum]
    cases rw with
    | read =>
      obtain ⟨hopcode, hlba, hcount⟩ := @scsiRwCdb_short w 0x28 0x88 scsicmd hsum
      simp [scsiRwCmd, scsicmdReadCmd, hopcode, hlba, hcount]
    | write =>
      obtain ⟨hopcode, hlba, hcount⟩ := @scsiRwCdb_short w 0x2a 0x8a scsicmd hsum
      simp [scsiRwCmd, scsicmdWriteCmd, hopcode, hlba, hcount]
  · rw [if_neg hsum]
    cases rw with
    | read =>
      obtain ⟨hopcode, hlba, hcount⟩ :=
        @scsiRwCdb_long w 0x28 0x88 scsicmd (Nat.le_of_not_lt hsum) hroom
      simp [scsiRwCmd, scsicmdReadCmd, hopcode, hlba, hcount]
    | write =>
      obtain ⟨hopcode, hlba, hcount⟩ :=
        @scsiRwCdb_long w 0x2a 0x8a scsicmd (Nat.le_of_not_lt hsum) hroom
      simp [scsiRwCmd, scsicmdWriteCmd, hopcode, hlba, hcount]

/-- **A command denotes the blocks that are asked for** exactly if their number has 16 bits or
their end has more than 32.
[drivers/block/scsi.c:505-553] -/
theorem scsi_addressing (request : ScsiRequest w) (rw : BlockRw) :
    scsiDecode (scsiRwCmd request.toScsiCommand rw).cdb =
        some (rw, request.lba.toNat, request.count.toNat) ↔
      request.count.toNat < 2 ^ 16 ∨ 2 ^ 32 ≤ request.lba.toNat + request.count.toNat := by
  have hroom := request.inside.trans_lt request.capacity.blocks.isLt
  rw [scsiDecode_scsiRwCmd _ _ hroom]
  simp only [Option.some.injEq, Prod.mk.injEq, true_and]
  split_ifs with hsum
  · omega
  · exact iff_of_true rfl (.inr (Nat.le_of_not_lt hsum))

/-- The first 65536 blocks of a disk of 64 megabytes. -/
def firstBlocks : ScsiRequest 64 where
  lba := 0
  count := 0x10000
  buffer := 0
  len := 0x2000000
  transport := id
  answer := .capacity10 0x1ffff 512
  capacity := { blocks := 0x20000, blksize := 512, maxCount := -1 }
  reported := rfl
  inside := by decide
  count_le := by decide

/-- Asked for the first 65536 blocks, no block is read. -/
theorem scsi_addressing_firstBlocks :
    scsiDecode (scsiRwCmd firstBlocks.toScsiCommand .read).cdb = some (.read, 0, 0) ∧
      firstBlocks.count.toNat = 0x10000 := by
  decide

end Ipxe.Analysis
