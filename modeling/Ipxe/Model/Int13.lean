import Mathlib.Tactic

/-!
# INT 13 geometry

`arch/x86/interface/pcbios/int13.c`: how the geometry of an emulated drive is guessed, returned and
used.

Left out: El Torito, drive numbers other than the bit that tells floppy disk drives, the
pointer to the floppy disk parameter table, and the other functions of the interrupt.
-/

namespace Ipxe.Model

/-- See arch/x86/include/int13.h:248-255 -/
structure PartitionChs where
  head : UInt8
  cylSector : UInt8
  cyl : UInt8

def partHead (chs : PartitionChs) : ℕ := chs.head.toNat

def partSector (chs : PartitionChs) : ℕ := (chs.cylSector &&& 0x3f).toNat

def partCylinder (chs : PartitionChs) : ℕ := chs.cyl.toNat ||| (chs.cylSector &&& 0xc0).toNat <<< 2

/-- See arch/x86/include/int13.h:262-275 -/
structure PartitionTableEntry where
  chsStart : PartitionChs
  type : UInt8
  chsEnd : PartitionChs
  start : BitVec 32

/-- See arch/x86/include/int13.h:278-289 -/
structure MasterBootRecord where
  partitions : List PartitionTableEntry
  length_partitions : partitions.length = 4

/-- What is read from a SAN device: its kind, its capacity, its block size and its first block. -/
structure Int13Drive where
  isFdd : Bool
  capacity : BitVec 64
  blksize : ℕ
  mbr : MasterBootRecord

/-- See 66-108 -/
structure Int13Data where
  cylinders : ℕ := 0
  heads : ℕ := 0
  sectorsPerTrack : ℕ := 0

variable (drive : Int13Drive)

/-- See 159-162 -/
def int13Capacity32 : ℕ :=
  if drive.capacity.toNat ≤ 0xffffffff then drive.capacity.toNat else 0xffffffff

/-- One turn of the loop over the partition table: the guesses for heads and sectors.
[259-298] -/
def int13ScanPartition (guess : ℕ × ℕ) (partition : PartitionTableEntry) : ℕ × ℕ :=
  if partition.type = 0 then guess
  else
    let startCylinder := partCylinder partition.chsStart
    let startHead := partHead partition.chsStart
    let startSector := partSector partition.chsStart
    let sectors :=
      if startCylinder = 0 ∧ startHead ≠ 0 then
        (partition.start + 1 - BitVec.ofNat 32 startSector).toNat / startHead
      else guess.2
    let endHead := partHead partition.chsEnd
    let endSector := partSector partition.chsEnd
    (if endHead + 1 > guess.1 then endHead + 1 else guess.1,
      if endSector > sectors then endSector else sectors)

/-- Guess INT 13 hard disk drive geometry.
[227-307] -/
def int13GuessGeometryHdd (mbr : MasterBootRecord) : ℕ × ℕ :=
  let guess := mbr.partitions.foldl int13ScanPartition (0, 0)
  (if guess.1 = 0 then 255 else guess.1, if guess.2 = 0 then 63 else guess.2)

/-- Recognised floppy disk geometries: cylinders, heads and sectors.
[310-331] -/
def int13FddGeometries : List (ℕ × ℕ × ℕ) :=
  [(40, 1, 8), (40, 1, 9), (40, 2, 8), (40, 1, 9), (80, 2, 8), (80, 2, 9), (80, 2, 15), (80, 2, 18),
    (80, 2, 20), (80, 2, 21), (82, 2, 21), (83, 2, 21), (80, 2, 22), (80, 2, 23), (80, 2, 24),
    (80, 2, 36), (80, 2, 39), (80, 2, 40), (80, 2, 44), (80, 2, 48)]

/-- Guess INT 13 floppy disk drive geometry.
[343-372] -/
def int13GuessGeometryFdd : ℕ × ℕ :=
  let blocks := drive.capacity.toNat % 2 ^ 32
  match int13FddGeometries.find? fun geometry => geometry.1 * geometry.2.1 * geometry.2.2 = blocks with
  | some geometry => geometry.2
  | none => (2, 18)

variable (int13 : Int13Data)

/-- Guess INT 13 drive geometry.  There is no result if it is divided by zero.
[381-417] -/
def int13GuessGeometry : Option Int13Data :=
  let guessed := if drive.isFdd then int13GuessGeometryFdd drive else int13GuessGeometryHdd drive.mbr
  let heads := if int13.heads = 0 then guessed.1 else int13.heads
  let sectors := if int13.sectorsPerTrack = 0 then guessed.2 else int13.sectorsPerTrack
  if int13.cylinders = 0 then
    let blocks := int13Capacity32 drive
    let blocksPerCyl := heads * sectors % 2 ^ 32
    if blocksPerCyl = 0 then none
    else
      let cylinders := blocks / blocksPerCyl
      some ⟨if cylinders > 1024 then 1024 else cylinders, heads, sectors⟩
  else some ⟨int13.cylinders, heads, sectors⟩

structure Int13Regs where
  al : UInt8 := 0
  bl : UInt8 := 0
  ch : UInt8 := 0
  cl : UInt8 := 0
  dh : UInt8 := 0
  dl : UInt8 := 0
  es : UInt16 := 0
  bx : UInt16 := 0

/-- The cylinder, head and sector in the registers. -/
def Int13Regs.chs (regs : Int13Regs) : ℕ × ℕ × ℕ :=
  ((regs.cl &&& 0xc0).toNat <<< 2 ||| regs.ch.toNat, regs.dh.toNat, (regs.cl &&& 0x3f).toNat)

/-- The block address, the number of blocks and the buffer that `sandev_rw` is called with, or
none if the call is invalid.
[523-573] -/
def int13RwSectors (regs : Int13Regs) : Option (ℕ × ℕ × ℕ) :=
  if drive.blksize ≠ 512 then none
  else
    let (cylinder, head, sector) := regs.chs
    if cylinder ≥ int13.cylinders ∨ head ≥ int13.heads ∨ sector < 1 ∨
        sector > int13.sectorsPerTrack then none
    else
      some (((cylinder * int13.heads + head) * int13.sectorsPerTrack + sector - 1) % 2 ^ 32,
        regs.al.toNat, regs.es.toNat * 16 + regs.bx.toNat)

/-- INT 13, 08 - Get drive parameters.
[626-657] -/
def int13GetParameters (numDrives : UInt8) (regs : Int13Regs) : Option Int13Regs :=
  let maxCylinder := (int13.cylinders + 2 ^ 32 - 1) % 2 ^ 32
  let maxHead := (int13.heads + 2 ^ 32 - 1) % 2 ^ 32
  let maxSector := int13.sectorsPerTrack
  if drive.blksize ≠ 512 then none
  else
    some { regs with
      ch := UInt8.ofNat (maxCylinder &&& 0xff)
      cl := UInt8.ofNat ((maxCylinder >>> 8) <<< 6 ||| maxSector)
      dh := UInt8.ofNat maxHead
      dl := numDrives
      bl := if drive.isFdd then 0x04 else regs.bl }

end Ipxe.Model
