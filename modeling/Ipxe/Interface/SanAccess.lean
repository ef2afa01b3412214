import Ipxe.Model.Sanboot

/-!
# Access to a SAN device

What a request to a SAN device asks for, in blocks and bytes of the underlying disk; how
a request is to be split into commands; and what reading returns when parts of the disk are
overridden.
-/

namespace Ipxe.Interface

open Library Model

variable {w : ℕ}

/-- A request, for a buffer that fits into the address space. -/
structure SanRequest (sandev : SanDevice w) where
  lba : BitVec 64
  count : BitVec 32
  buffer : BitVec w
  fits : count.toNat * 2 ^ sandev.blksizeShift * sandev.capacity.blksize.toNat < 2 ^ w

section

variable {sandev : SanDevice w} (req : SanRequest sandev)

def SanRequest.firstBlock : ℕ := req.lba.toNat * 2 ^ sandev.blksizeShift

def SanRequest.blocks : ℕ := req.count.toNat * 2 ^ sandev.blksizeShift

/-- Where the request begins on the disk. -/
def SanRequest.pos : ℕ := req.firstBlock * sandev.capacity.blksize.toNat

def SanRequest.bytes : ℕ := req.blocks * sandev.capacity.blksize.toNat

/-- The commands go through the blocks of a request one after the other, from the block after
the first `done` on; each has a part of the buffer, and none is empty or too large. -/
def GoesThrough (req : SanRequest sandev) : ℕ → List (SanCommandRwParams w) → Prop
  | done, [] => done = req.blocks
  | done, params :: commands =>
    params.lba.toNat = req.firstBlock + done ∧
    -- blocks have numbers of 64 bits
    params.lba.toNat + params.count.toNat ≤ 2 ^ 64 ∧
    params.buffer = serialAt req.buffer (done * sandev.capacity.blksize.toNat) ∧
    rwLen sandev params = params.count.toNat * sandev.capacity.blksize.toNat ∧
    0 < params.count.toNat ∧ params.count ≤ sandev.capacity.maxCount ∧
    GoesThrough req (done + params.count.toNat) commands

/-- Whatever happens to the commands, the request returns; the commands that it executes are those
that go through its blocks, all of them if it succeeds. -/
def Splits (sanRetries : ℕ) (blockRw : BlockRw) : Prop :=
  ∃ commands, GoesThrough req 0 commands ∧
    ∀ world attempts, ∃ fuel run,
      sandevRw fuel sandev sanRetries req.lba req.count req.buffer blockRw world attempts =
        some run ∧
      run.issued <+: commands ∧ (run.rc = none → run.issued = commands)

/-- The blocks of the request can be counted with 32 bits and numbered with 64, and the device
takes some. -/
def SanRequest.Countable : Prop :=
  req.count = 0 ∨
    (sandev.capacity.maxCount ≠ 0 ∧ req.blocks < 2 ^ 32 ∧ req.firstBlock + req.blocks ≤ 2 ^ 64)

end

variable (sandiskOver : SandiskOver)

def SandiskOver.Covers (pos : ℕ) (loc : BitVec 64) : Prop :=
  loc.toNat ≤ pos ∧ pos < loc.toNat + sandiskOver.len.toNat

instance (sandiskOver : SandiskOver) (pos : ℕ) (loc : BitVec 64) :
    Decidable (SandiskOver.Covers sandiskOver pos loc) :=
  inferInstanceAs (Decidable (_ ∧ _))

/-- The byte that is to be seen at a place: the replacement byte of the last location that covers
it, or that of the disk. -/
def SandiskOver.byteAt (locs : List (BitVec 64)) (pos : ℕ) (disk : UInt8) : UInt8 :=
  match locs.reverse.find? fun loc => SandiskOver.Covers sandiskOver pos loc with
  | some loc => sandiskOver.buf (pos - loc.toNat)
  | none => disk

end Ipxe.Interface
