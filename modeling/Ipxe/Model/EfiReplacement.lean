import Ipxe.Model.Encodings

/-!
# The replaced EFI file

`interface/efi/efi_vtoy_protocol.c` replaces one file by bytes of the medium from a sector on.  The
position of the opened file is a global variable.  The status of the original `Open` and of each
`ReadBlocks`, with what it leaves in its buffer if it fails, is given with each call.
-/

namespace Ipxe.Model

/-- `g_szEFIReplace`, `g_uiReplaceSector` and `g_uiReplaceSize`, in some build. -/
structure Replacement where
  arch : Platform
  szEFIReplace : Bytes
  uiReplaceSector : ℕ
  uiReplaceSize : ℕ
  /-- the size is a `uint32_t` -/
  size_lt : uiReplaceSize < 2 ^ 32

/-- Whether `StrAsciiCmp` finds two strings equal; the first is one of `CHAR16`s, which the `char`s of
the second are converted to.
[interface/efi/efi_vtoy.c:79-86] -/
def strAsciiEqual (arch : Platform) : List ℕ → Bytes → Bool
  | [], [] => true
  | char :: first, other :: second =>
    char = arch.charToUnsigned other % 2 ^ 16 ∧ strAsciiEqual arch first second
  | _, _ => false

/-- See interface/efi/efi_vtoy.c:126-139 -/
def vtoyReplaceMatch (arch : Platform) (first : List ℕ) (second : Bytes) : Bool :=
  strAsciiEqual arch (if first.head? = some 0x5c then first.tail else first)
    (if second.head? = some 0x5c then second.tail else second)

/-! ## The wrapper -/

def efiSuccess : ℕ := 0
def efiNotFound : ℕ := 14

def efiFileModeWrite : ℕ := 2

/-- `g_replace_cur_pos` and `g_aucSectorBuf`. -/
structure ReplacedFile where
  replaceCurPos : ℕ := 0
  sectorBuf : Bytes := List.replicate 2048 0

/-- How one `ReadBlocks` ends: its status, and what is in the buffer if it fails. -/
structure BlockRead where
  status : ℕ
  left : ℕ → UInt8

/-- A call of a function of the file system or of the file. -/
inductive EfiFileCall where
  /-- `ventoy_wrapper_file_open`, and the status of the original function -/
  | open (name : List ℕ) (mode : ℕ) (status : ℕ)
  | setPos (position : UInt64)
  | getPos
  /-- `ventoy_wrapper_file_read`, and how the blocks are read -/
  | read (len : UInt64) (first second : BlockRead)

/-- What a call returns. -/
structure EfiFileReply where
  status : ℕ := efiSuccess
  /-- whether the handle returned is that of the wrapper -/
  wrapper : Bool := false
  position : ℕ := 0
  /-- the data read; its length is also returned -/
  data : Bytes := []
  /-- the statuses of the block reads that were made -/
  blockReads : List ℕ := []

section

variable (replacement : Replacement) (medium : ℕ → UInt8)

/-- What `ReadBlocks` leaves in a buffer, from a medium with sectors of 2048 bytes. -/
def readBlocks (lba len : ℕ) (blockRead : BlockRead) : Bytes :=
  (List.range len).map fun i =>
    if blockRead.status = efiSuccess then medium (lba * 2048 + i) else blockRead.left i

/-- See 274-308 -/
def ventoyWrapperFileOpen (name : List ℕ) (mode status : ℕ) : EfiFileReply :=
  if mode &&& efiFileModeWrite > 0 ∧
      strAsciiEqual replacement.arch name (ascii "\\loader\\random-seed") then
    { status := efiNotFound }
  else if status ≠ efiSuccess then { status := status }
  else
    { status := status
      wrapper := vtoyReplaceMatch replacement.arch name replacement.szEFIReplace }

variable (file : ReplacedFile)

/-- See 153-167 -/
def ventoyWrapperFileSetPos (position : UInt64) : ReplacedFile :=
  { file with
    replaceCurPos := if position.toNat ≤ replacement.uiReplaceSize then position.toNat
      else replacement.uiReplaceSize }

/-- `ReadLen`, once it has been limited.
[220-223] -/
def limitedLen (len : UInt64) : ℕ :=
  if (file.replaceCurPos + len.toNat) % 2 ^ 64 > replacement.uiReplaceSize then
    (replacement.uiReplaceSize + 2 ^ 64 - file.replaceCurPos) % 2 ^ 64
  else len.toNat

/-- See 208-245 -/
def ventoyWrapperFileRead (len : UInt64) (first second : BlockRead) : EfiFileReply × ReplacedFile :=
  let readLen := limitedLen replacement file len
  let lba := file.replaceCurPos / 2048 + replacement.uiReplaceSector
  let partLen := readLen % 2048
  let readSec := (readLen - partLen) / 2048
  let data := readBlocks medium lba (readLen - partLen) first
  let replaceCurPos := (file.replaceCurPos + readLen) % 2 ^ 64
  if partLen > 0 then
    let sectorBuf := readBlocks medium (lba + readSec) 2048 second
    ({ data := data ++ sectorBuf.take partLen, blockReads := [first.status, second.status] },
      { replaceCurPos, sectorBuf })
  else ({ data, blockReads := [first.status] }, { file with replaceCurPos })

/-- A call: the reply, and the state afterwards. -/
def efiFileCall :
    EfiFileCall → EfiFileReply × ReplacedFile
  | .open name mode status => (ventoyWrapperFileOpen replacement name mode status, file)
  | .setPos position => ({}, ventoyWrapperFileSetPos replacement file position)
  | .getPos => ({ position := file.replaceCurPos }, file)
  | .read len first second => ventoyWrapperFileRead replacement medium file len first second

end

end Ipxe.Model
