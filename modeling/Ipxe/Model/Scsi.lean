import Ipxe.Library.MultiWord
import Ipxe.Model.Sanboot

/-!
# SCSI commands

`drivers/block/scsi.c`.  A `size_t` has `w` bits.  A command descriptor block is the 16 bytes of
the union, which are zero before they are filled in.

Left out: tags, logical unit numbers, and the other commands.
-/

namespace Ipxe.Model

open Library

variable {w : ℕ}

/-- See 281-303 -/
structure ScsiCommand (w : ℕ) where
  lba : BitVec 64
  count : BitVec 32
  buffer : BitVec w
  len : BitVec w

/-- See include/ipxe/scsi.h:252-266 -/
structure ScsiCmd (w : ℕ) where
  cdb : Bytes
  dataOut : BitVec w := 0
  dataOutLen : BitVec w := 0
  dataIn : BitVec w := 0
  dataInLen : BitVec w := 0

/-- Maximum block for READ/WRITE (10) commands.
[include/ipxe/scsi.h:17] -/
def scsiMaxBlock10 : BitVec 64 := 0xffffffff

/-- A READ or WRITE descriptor block, in its form with 16 bytes or in that with 10.
[include/ipxe/scsi.h:52-135] -/
def scsiRwCdb (opcode10 opcode16 : UInt8) (scsicmd : ScsiCommand w) : Bytes :=
  if scsicmd.lba + scsicmd.count.setWidth 64 > scsiMaxBlock10 then
    [opcode16, 0] ++ bigEndian 8 scsicmd.lba.toNat ++ bigEndian 4 scsicmd.count.toNat ++ [0, 0]
  else
    [opcode10, 0] ++ bigEndian 4 scsicmd.lba.toNat ++ [0] ++ bigEndian 2 scsicmd.count.toNat ++
      [0] ++ List.replicate 6 0

variable (scsicmd : ScsiCommand w)

/-- Construct SCSI READ command.
[505-522] -/
def scsicmdReadCmd : ScsiCmd w where
  cdb := scsiRwCdb 0x28 0x88 scsicmd
  dataIn := scsicmd.buffer
  dataInLen := scsicmd.len

/-- Construct SCSI WRITE command.
[536-553] -/
def scsicmdWriteCmd : ScsiCmd w where
  cdb := scsiRwCdb 0x2a 0x8a scsicmd
  dataOut := scsicmd.buffer
  dataOutLen := scsicmd.len

structure ScsiCapacity (w : ℕ) extends BlockDeviceCapacity w where
  /-- total number of blocks -/
  blocks : BitVec 64

/-- The answer to READ CAPACITY (10) or READ CAPACITY (16), in the order of the host.
[include/ipxe/scsi.h:157-194] -/
inductive ScsiCapacityData where
  | capacity10 (lba blksize : BitVec 32)
  | capacity16 (lba : BitVec 64) (blksize : BitVec 32)

/-- Handle SCSI READ CAPACITY command completion: the capacity that is reported, after the
transport layer has updated it.  If there is none, READ CAPACITY (16) is issued next.
[610-658] -/
def scsicmdReadCapacityDone (transport : ScsiCapacity w → ScsiCapacity w) :
    ScsiCapacityData → Option (ScsiCapacity w)
  | .capacity10 lba blksize =>
    if (lba + 1).setWidth 64 = (0 : BitVec 64) then none
    else
      some (transport { blocks := (lba + 1).setWidth 64, blksize := blksize.setWidth w, maxCount := -1 })
  | .capacity16 lba blksize =>
    some (transport { blocks := lba + 1, blksize := blksize.setWidth w, maxCount := -1 })

end Ipxe.Model
