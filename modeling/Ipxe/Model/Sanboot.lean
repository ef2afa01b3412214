import Ipxe.Library.ByteMemory
import Ipxe.Model.Platform

/-!
# SAN devices

`core/sanboot.c`: a request is split into commands, a command is tried again if it fails, and what
has been read is overridden in places.  Pointers and `size_t` have `w` bits.  What a turn of the
retry loop meets is an argument (`Attempt`).  The bytes that a command moves lie in its own range,
and when it succeeds it has moved them all.

Left out: timers, quiescing, ACPI descriptions, the paths themselves and the number of blocks of
the device.
-/

namespace Ipxe.Model

open Library

/-- See include/ipxe/blockdev.h:18-25 -/
structure BlockDeviceCapacity (w : ℕ) where
  blksize : BitVec w
  /-- maximum number of blocks per single transfer -/
  maxCount : BitVec 32

/-- See include/ipxe/sanboot.h:47-90 -/
structure SanDevice (w : ℕ) where
  /-- raw block device capacity -/
  capacity : BlockDeviceCapacity w
  /-- the left-shift required to translate from exposed logical I/O blocks to underlying blocks -/
  blksizeShift : ℕ
  /-- number of paths -/
  paths : ℕ

/-- SAN device read/write command parameters.
[426-437] -/
structure SanCommandRwParams (w : ℕ) where
  buffer : BitVec w
  lba : BitVec 64
  count : BitVec 32
  deriving DecidableEq

inductive BlockRw where
  | read
  | write
  deriving DecidableEq

/-- Memory, and the bytes of the underlying disk. -/
structure SanWorld (w : ℕ) where
  mem : ByteMemory w
  disk : ℕ → UInt8

/-- What a turn of the retry loop meets. -/
inductive Attempt where
  /-- the device has to be reopened, and cannot be -/
  | reopenFails (rc : Errno)
  | initiateFails (rc : Errno)
  /-- the command fails after some of the bytes have been moved -/
  | fails (rc : Errno) (moved : ℕ → Option UInt8)
  | succeeds

section

variable {w : ℕ} (sandev : SanDevice w)

/-- See include/ipxe/sanboot.h:212-214 -/
def sandevBlksize : BitVec w :=
  sandev.capacity.blksize <<< sandev.blksizeShift

/-- Limit maximum number of blocks per transfer to fit MaxBurstLength.
[net/tcp/iscsi.c:1894-1904] -/
def iscsiScsiCapacity (maxBurstLen : BitVec w) (capacity : BlockDeviceCapacity w) :
    BlockDeviceCapacity w :=
  if capacity.blksize ≠ 0 then
    let maxCount := (maxBurstLen / capacity.blksize).setWidth 32
    if maxCount < capacity.maxCount then { capacity with maxCount := maxCount } else capacity
  else capacity

/-! ## Commands -/

variable (params : SanCommandRwParams w)

/-- `size_t len = ( params->rw.count * sandev->capacity.blksize )`
[455] -/
def rwLen : ℕ :=
  (params.count.setWidth w * sandev.capacity.blksize).toNat

/-- The place on the disk of the first block of a command. -/
def rwPos : ℕ :=
  params.lba.toNat * sandev.capacity.blksize.toNat

/-- Some bytes of a command have been moved. -/
def blockMoves (moved : ℕ → Option UInt8)
    (world : SanWorld w) : BlockRw → SanWorld w
  | .read =>
    { world with
      mem := fill world.mem params.buffer (rwLen sandev params) fun i =>
        (moved i).getD (world.mem (serialAt params.buffer i)) }
  | .write =>
    { world with
      disk := fun pos =>
        if rwPos sandev params ≤ pos ∧ pos < rwPos sandev params + rwLen sandev params then
          (moved (pos - rwPos sandev params)).getD (world.disk pos)
        else world.disk pos }

/-- The bytes that a command moves when it succeeds. -/
def rwBytes (world : SanWorld w) :
    BlockRw → ℕ → Option UInt8
  | .read => fun i => some (world.disk (rwPos sandev params + i))
  | .write => fun i => some (world.mem (serialAt params.buffer i))

/-- The status, zero if there is none, with what is left of the attempts. -/
structure SanStatus (w : ℕ) where
  rc : Option Errno
  world : SanWorld w
  attempts : List Attempt

/-- Execute a single SAN device read/write command and wait for completion.
[508-566] -/
def sandevCommand (sandev : SanDevice w) (sanRetries : ℕ) (blockRw : BlockRw)
    (params : SanCommandRwParams w) : List Attempt → BitVec 32 → SanWorld w → SanStatus w
  | [], _, world =>
    ⟨none, blockMoves sandev params (rwBytes sandev params world blockRw) world blockRw, []⟩
  | .succeeds :: attempts, _, world =>
    ⟨none, blockMoves sandev params (rwBytes sandev params world blockRw) world blockRw, attempts⟩
  | .reopenFails rc :: attempts, retries, world =>
    -- Retry opening indefinitely for multipath devices
    let retries := if sandev.paths ≤ 1 then retries + 1 else retries
    if retries.toNat ≤ sanRetries then
      sandevCommand sandev sanRetries blockRw params attempts retries world
    else ⟨some rc, world, attempts⟩
  | .initiateFails rc :: attempts, retries, world =>
    let retries := retries + 1
    if retries.toNat ≤ sanRetries then
      sandevCommand sandev sanRetries blockRw params attempts retries world
    else ⟨some rc, world, attempts⟩
  | .fails rc moved :: attempts, retries, world =>
    let retries := retries + 1
    let world := blockMoves sandev params moved world blockRw
    if retries.toNat ≤ sanRetries then
      sandevCommand sandev sanRetries blockRw params attempts retries world
    else ⟨some rc, world, attempts⟩

/-- A request that has returned, with the commands that were executed for it. -/
structure SanRun (w : ℕ) extends SanStatus w where
  issued : List (SanCommandRwParams w)

/-- Read/write fragments; the loop need not end.
[615-631] -/
def sandevRwLoop (sandev : SanDevice w) (sanRetries : ℕ) (blockRw : BlockRw) :
    ℕ → SanCommandRwParams w → BitVec 32 → SanWorld w → List Attempt → Option (SanRun w)
  | 0, _, _, _, _ => none
  | fuel + 1, params, remaining, world, attempts =>
    if remaining = 0 then some ⟨⟨none, world, attempts⟩, []⟩
    else
      let params :=
        if params.count > remaining then { params with count := remaining } else params
      let status := sandevCommand sandev sanRetries blockRw params attempts 0 world
      match status.rc with
      | some _ => some ⟨status, [params]⟩
      | none =>
        let fragLen := sandev.capacity.blksize * params.count.setWidth w
        let next :=
          { params with
            buffer := params.buffer + fragLen
            lba := params.lba + params.count.setWidth 64 }
        (sandevRwLoop sandev sanRetries blockRw fuel next (remaining - params.count)
          status.world status.attempts).map fun run =>
            { run with issued := params :: run.issued }

/-- Read from or write to SAN device.
[596-634] -/
def sandevRw (fuel : ℕ) (sandev : SanDevice w) (sanRetries : ℕ) (lba : BitVec 64)
    (count : BitVec 32) (buffer : BitVec w) (blockRw : BlockRw) (world : SanWorld w)
    (attempts : List Attempt) : Option (SanRun w) :=
  sandevRwLoop sandev sanRetries blockRw fuel
    { buffer := buffer
      lba := lba <<< sandev.blksizeShift
      count := sandev.capacity.maxCount }
    (count <<< sandev.blksizeShift) world attempts

/-- The replacement buffer and the places where it goes.
[core/grub/kern/ipxe_grub.c:51-55] -/
structure SandiskOver where
  /-- the memory from `g_pcSandiskOverBuf` on -/
  buf : ℕ → UInt8
  len : BitVec 32
  loc : List (BitVec 64)
  cnt_le : loc.length ≤ 16

/-- Override what has been read at one location.
[663-697] -/
def sandiskOverride (seek len : BitVec 64) (buffer : BitVec w) (sandiskOver : SandiskOver)
    (mem : ByteMemory w) (rangeStart : BitVec 64) : ByteMemory w :=
  let rangeLen := sandiskOver.len.setWidth 64
  let rangeEnd := rangeStart + rangeLen
  if seek + len ≤ rangeStart ∨ seek ≥ rangeEnd then mem
  else if seek ≤ rangeStart then
    let overLen := if seek + len ≤ rangeEnd then seek + len - rangeStart else rangeLen
    fill mem (buffer + rangeStart.setWidth w - seek.setWidth w) overLen.toNat sandiskOver.buf
  else
    let overLen := if seek + len ≤ rangeEnd then len else rangeEnd - seek
    fill mem buffer overLen.toNat fun i => sandiskOver.buf ((seek - rangeStart).toNat + i)

/-- Read from SAN device.
[646-701] -/
def sandevRead (fuel : ℕ) (sandev : SanDevice w) (sanRetries : ℕ) (sandiskOver : SandiskOver)
    (lba : BitVec 64) (count : BitVec 32) (buffer : BitVec w) (world : SanWorld w)
    (attempts : List Attempt) : Option (SanRun w) :=
  (sandevRw fuel sandev sanRetries lba count buffer .read world attempts).map fun run =>
    match run.rc with
    | some _ => run
    | none =>
      let seek := lba * (sandevBlksize sandev).setWidth 64
      let len := (count.setWidth w * sandevBlksize sandev).setWidth 64
      { run with
        world :=
          { run.world with
            mem := sandiskOver.loc.foldl (sandiskOverride seek len buffer sandiskOver)
              run.world.mem } }

end

end Ipxe.Model
