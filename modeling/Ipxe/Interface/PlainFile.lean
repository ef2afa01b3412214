import Ipxe.Library.Runs
import Ipxe.Model.EfiReplacement

/-!
# A plain file

What the calls of a file should do: a fresh open starts at position zero, the position can be set
inside the file and asked for, and reading gives the bytes from the position on, as far as there
are any, or reports an error.
-/

namespace Ipxe.Interface

open Library Model

variable (replacement : Replacement) (medium : ℕ → UInt8)

def fileByte (offset : ℕ) : UInt8 := medium (replacement.uiReplaceSector * 2048 + offset)

/-- The bytes of the file from a position on, limited to a length and to the bytes remaining. -/
def fileBytes (position len : ℕ) : Bytes :=
  (List.range (min len (replacement.uiReplaceSize - position))).map fun i =>
    fileByte replacement medium (position + i)

variable (file : ReplacedFile)

/-- A call on the file does what it should. -/
def CallRight (call : EfiFileCall) : Prop :=
  let (reply, after) := efiFileCall replacement medium file call
  match call with
  | .open .. => reply.wrapper = true → after.replaceCurPos = 0
  | .setPos position =>
    reply.status = efiSuccess ∧ after.replaceCurPos = min position.toNat replacement.uiReplaceSize
  | .getPos =>
    reply.status = efiSuccess ∧ reply.position = file.replaceCurPos ∧
      after.replaceCurPos = file.replaceCurPos
  | .read len _ _ =>
    ((∃ status ∈ reply.blockReads, status ≠ efiSuccess) → reply.status ≠ efiSuccess) ∧
    (reply.status = efiSuccess →
      reply.data = fileBytes replacement medium file.replaceCurPos len.toNat ∧
        after.replaceCurPos = file.replaceCurPos + reply.data.length)

def fileStep (call : EfiFileCall) : ReplacedFile :=
  (efiFileCall replacement medium file call).2

/-- How many bytes a read should give. -/
def wantedLen (len : UInt64) : ℕ :=
  min len.toNat (replacement.uiReplaceSize - file.replaceCurPos)

/-- The calls that the wrapper can answer: the replaced file is opened while the position is zero,
and read at the start of a sector (or not at all), with a length that the position can be added to,
while the medium can be read. -/
def CallServed : EfiFileCall → Prop
  | .open name mode status =>
    (ventoyWrapperFileOpen replacement name mode status).wrapper = true → file.replaceCurPos = 0
  | .setPos _ => True
  | .getPos => True
  | .read len first second =>
    (file.replaceCurPos % 2048 = 0 ∨ wantedLen replacement file len = 0) ∧
      file.replaceCurPos + len.toNat < 2 ^ 64 ∧ first.status = efiSuccess ∧
      (wantedLen replacement file len % 2048 ≠ 0 → second.status = efiSuccess)

end Ipxe.Interface
