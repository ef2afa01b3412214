import Ipxe.Model.Platform
import Ipxe.Model.Strings

/-!
# TFTP requests

`net/udp/tftp.c` for a download from one server, with the bitmap of the received blocks
(`core/bitmap.c`) and the buffer of the recipient (`core/xferbuf.c`).  Which allocations succeed is
an argument.  A bit that is set where the bitmap has no word is recorded in `stray`.

Left out: the first request, sockets and the filter by source port, packets that are shorter than
their headers, multicast sockets, the bytes of the acknowledged options, profiling and debugging
output.
-/

namespace Ipxe.Model

/-! ## Bitmaps
[core/bitmap.c:42-106, include/ipxe/bitmap.h:16-90] -/

structure Bitmap where
  blocks : List ℕ := []
  length : ℕ := 0
  firstGap : ℕ := 0
  deriving DecidableEq

section

variable (arch : Platform)

def bitmapIndex (bit : ℕ) : ℕ := bit / arch.sizeBits

def bitmapMask (bit : ℕ) : ℕ := 2 ^ (bit % arch.sizeBits)

def bitmapNumBlocks (length : ℕ) : ℕ :=
  bitmapIndex arch ((length + arch.sizeBits - 1) % 2 ^ arch.sizeBits)

def bitmapResize (allocated : Bool) (bitmap : Bitmap) (newLength : ℕ) : Except Errno Bitmap :=
  let oldNumBlocks := bitmapNumBlocks arch bitmap.length
  let newNumBlocks := bitmapNumBlocks arch newLength
  if oldNumBlocks ≠ newNumBlocks ∧ !allocated then .error .enomem
  else
    .ok { bitmap with
      blocks := bitmap.blocks.take newNumBlocks ++ List.replicate (newNumBlocks - oldNumBlocks) 0
      length := newLength }

variable (bitmap : Bitmap)

def bitmapTest (bit : ℕ) : Bool :=
  if bitmap.length ≤ bit then false
  else bitmap.blocks.getD (bitmapIndex arch bit) 0 &&& bitmapMask arch bit ≠ 0

/-- Update first gap counter.  There is no bit behind the length, so that the loop runs at most
as often as there are bits. -/
def bitmapUpdateGap (bitmap : Bitmap) : (more firstGap : ℕ) → ℕ
  | 0, firstGap => firstGap
  | more + 1, firstGap =>
    if bitmapTest arch bitmap firstGap then bitmapUpdateGap bitmap more (firstGap + 1)
    else firstGap

def bitmapSet (bit : ℕ) : Bitmap :=
  let bitmap := { bitmap with
    blocks := bitmap.blocks.modify (bitmapIndex arch bit) (· ||| bitmapMask arch bit) }
  { bitmap with firstGap := bitmapUpdateGap arch bitmap bitmap.length bitmap.firstGap }

def bitmapFull : Bool := bitmap.firstGap = bitmap.length

end

/-! ## Data transfer buffers
[core/xferbuf.c:70-170, core/xfer.c:350-366] -/

/-- `struct xfer_buffer`; there is nothing at a position that has not been written to. -/
structure XferBuffer where
  data : List (Option UInt8) := []
  deriving DecidableEq

section

variable (arch : Platform) (allocated : Bool) (xferbuf : XferBuffer)

/-- Ensure that data transfer buffer is large enough for the specified size. -/
def xferbufEnsureSize (len : ℕ) : Except Errno XferBuffer :=
  if len ≤ xferbuf.data.length then .ok xferbuf
  else if allocated then
    .ok { data := xferbuf.data ++ List.replicate (len - xferbuf.data.length) none }
  else .error .enospc

variable (offset : ℕ)

def xferbufWrite (data : Bytes) : Except Errno XferBuffer :=
  let maxLen := (offset + data.length) % 2 ^ arch.sizeBits
  if maxLen < offset then .error .eoverflow
  else
    match xferbufEnsureSize allocated xferbuf maxLen with
    | .error rc => .error rc
    | .ok xferbuf =>
      .ok { data := xferbuf.data.take offset ++ data.map some ++ xferbuf.data.drop (offset + data.length) }

/-- Add received data to data transfer buffer, at an absolute offset. -/
def xferbufDeliver (data : Bytes) : Except Errno XferBuffer :=
  xferbufWrite arch allocated xferbuf (offset % 2 ^ arch.sizeBits) data

/-- Seek to position, by delivering nothing there; whether it works is not looked at. -/
def xferSeek : XferBuffer :=
  match xferbufDeliver arch allocated xferbuf offset [] with
  | .error _ => xferbuf
  | .ok xferbuf => xferbuf

end

/-! ## Requests -/

/-- What a request has come to, with the status code of `tftp_done`. -/
inductive TftpStatus where
  | active
  | done
  | failed (rc : Errno)
  deriving DecidableEq

def tftpDefaultBlksize : ℕ := 512

/-- `struct tftp_request`.  `peer` is whether there is a peer address, `xfer` what the recipient
holds. -/
structure TftpRequest where
  blksize : ℕ := tftpDefaultBlksize
  tsize : ℕ := 0
  peer : Bool := false
  bitmap : Bitmap := {}
  filesize : ℕ := 0
  xfer : XferBuffer := {}
  status : TftpStatus := .active
  stray : Bool := false
  deriving DecidableEq

/-- The allocations that succeed while a packet is handled. -/
structure TftpAllocations where
  deliver : Bool := true
  seek : Bool := true
  bitmap : Bool := true
  deriving DecidableEq

section

variable (arch : Platform) (tftp : TftpRequest)

/-- Mark TFTP request as complete; a status code of zero is `none`. -/
def tftpDone (rc : Option Errno) : TftpRequest :=
  { tftp with
    status :=
      match rc with
      | none => .done
      | some rc => .failed rc }

variable (allocs : TftpAllocations)

/-- Presize TFTP receive buffers and block bitmap.
[272-301] -/
def tftpPresize (tftp : TftpRequest) (filesize : ℕ) : TftpRequest × Option Errno :=
  -- do nothing if we are already large enough
  if filesize ≤ tftp.filesize then (tftp, none)
  else
    let tftp := { tftp with
      filesize := filesize
      xfer := xferSeek arch allocs.seek
        (xferSeek arch allocs.seek tftp.xfer filesize) 0 }
    if tftp.blksize = 0 then (tftp, some .einval)
    else
      let numBlocks := (filesize / tftp.blksize + 1) % 2 ^ 32
      match bitmapResize arch allocs.bitmap tftp.bitmap numBlocks with
      | .error rc => (tftp, some rc)
      | .ok bitmap => ({ tftp with bitmap := bitmap }, none)

/-- The block number of the ACK that is sent next, if it is not the request that is sent again.
[381-405, 455-480] -/
def tftpSendPacket : Option ℕ :=
  if tftp.peer then some (tftp.bitmap.firstGap % 2 ^ 16) else none

/-- Handle TFTP retransmission timer expiry.
[489-546] -/
def tftpTimerExpired (fail : Bool) (tftp : TftpRequest) : TftpRequest × Option ℕ :=
  if fail then (tftpDone tftp (some .etimedout), none) else (tftp, tftpSendPacket tftp)

/-! ## Options
[555-590, 680-780] -/

/-- An acknowledged option with its value.  Those that are not recognised are ignored. -/
inductive TftpOption where
  | blksize (value : Bytes)
  | tsize (value : Bytes)
  | unknown
  deriving DecidableEq

/-- Process TFTP option: the block size and the file size after it. -/
def tftpProcessOption (sizes : ℕ × ℕ) (option : TftpOption) : Except Errno (ℕ × ℕ) :=
  match option with
  | .blksize value =>
    let number := strtoul arch.sizeBits value 10
    if number.2 ≠ [] then .error .einvalBlksize else .ok (number.1 % 2 ^ 32, sizes.2)
  | .tsize value =>
    let number := strtoul arch.sizeBits value 10
    if number.2 ≠ [] then .error .einvalTsize else .ok (sizes.1, number.1)
  | .unknown => .ok sizes

def tftpProcessOptions (sizes : ℕ × ℕ) (options : List TftpOption) : Except Errno (ℕ × ℕ) :=
  options.foldlM (tftpProcessOption arch) sizes

/-- Receive OACK: the request, and the ACK that is sent. -/
def tftpRxOack (tftp : TftpRequest) (options : List TftpOption) : TftpRequest × Option ℕ :=
  let tftp := { tftp with peer := true }
  match tftpProcessOptions arch (tftp.blksize, tftp.tsize) options with
  | .error rc => (tftpDone tftp (some rc), none)
  | .ok sizes =>
    let tftp := { tftp with blksize := sizes.1, tsize := sizes.2 }
    -- process tsize information, if available
    let sized := if tftp.tsize ≠ 0 then tftpPresize arch allocs tftp tftp.tsize
      else (tftp, none)
    match sized with
    | (tftp, some rc) => (tftpDone tftp (some rc), none)
    | (tftp, none) => (tftp, tftpSendPacket tftp)

/-- The block number of a DATA packet, from the one on the wire; there is no block 0. -/
def tftpBlock (wire : ℕ) : Option ℕ :=
  let block := (tftp.bitmap.firstGap + 1) % 2 ^ 32 / 2 ^ 16 * 2 ^ 16
  if wire = 0 ∧ block = 0 then none else some ((block + wire + (2 ^ 32 - 1)) % 2 ^ 32)

/-- Mark block as received, acknowledge it, and finish if all blocks have been received. -/
def tftpMarkBlock (block : ℕ) : TftpRequest × Option ℕ :=
  let tftp := { tftp with
    stray := tftp.stray || tftp.bitmap.blocks.length ≤ bitmapIndex arch block
    bitmap := bitmapSet arch tftp.bitmap block }
  (if bitmapFull tftp.bitmap then tftpDone tftp none else tftp, tftpSendPacket tftp)

/-- The data of a block, delivered at its offset. -/
def tftpRxBlock (tftp : TftpRequest) (block : ℕ) (data : Bytes) : TftpRequest × Option ℕ :=
  let offset := block * tftp.blksize % 2 ^ 32
  if tftp.blksize < data.length then (tftpDone tftp (some .einval), none)
  else
    match xferbufDeliver arch allocs.deliver tftp.xfer offset data with
    | .error rc => (tftpDone tftp (some rc), none)
    | .ok xfer =>
      -- ensure block bitmap is ready
      match tftpPresize arch allocs { tftp with xfer := xfer }
          ((offset + data.length) % 2 ^ arch.sizeBits) with
      | (tftp, some rc) => (tftpDone tftp (some rc), none)
      | (tftp, none) => tftpMarkBlock arch tftp block

/-- Receive DATA, with a block number and the data behind it: the request, and the ACK that is
sent.
[788-865] -/
def tftpRxData (tftp : TftpRequest) (wire : ℕ) (data : Bytes) : TftpRequest × Option ℕ :=
  let tftp := { tftp with peer := true }
  match tftpBlock tftp wire with
  | none => (tftpDone tftp (some .einval), none)
  | some block => tftpRxBlock arch allocs tftp block data

/-- Convert TFTP error code to return status code. -/
def tftpErrcodeToRc (errcode : ℕ) : Errno :=
  if errcode = 1 then .enoent
  else if errcode = 2 then .eacces
  else if errcode = 4 then .enotty
  else .enotsup

/-- Receive ERROR.
[867-910] -/
def tftpRxError (errcode : ℕ) : TftpRequest :=
  tftpDone { tftp with peer := true } (some (tftpErrcodeToRc errcode))

end

/-- A request with what the recovery of MTFTP uses: the flag `TFTP_FL_MTFTP_RECOVERY` and the number
of timeouts. -/
structure MtftpRequest where
  tftp : TftpRequest := {}
  recovery : Bool := false
  timeouts : ℕ := 0

/-- Reopen TFTP socket; `opened` is the error of opening it, if any.
[208-239] -/
def tftpReopen (opened : Option Errno) (tftp : TftpRequest) : TftpRequest :=
  let tftp := { tftp with peer := false }
  match opened with
  | none => tftp
  | some rc => tftpDone tftp (some rc)

/-- Handle the timer of a request that may be an MTFTP request.
[489-546] -/
def mtftpTimerExpired (opened : Option Errno) (fail : Bool) (request : MtftpRequest) :
    MtftpRequest :=
  if request.recovery then
    if request.tftp.peer then { request with tftp := tftpReopen opened request.tftp }
    else
      let request := { request with timeouts := request.timeouts + 1 }
      if request.timeouts > 3 then
        -- the block size may change: discard the block bitmap
        { request with recovery := false, tftp := tftpReopen opened { request.tftp with bitmap := {} } }
      else request
  else { request with tftp := (tftpTimerExpired fail request.tftp).1 }

/-- What happens to a request.  `multicast` is an OACK with a multicast option that cannot be used;
one that can changes nothing that is modelled. -/
inductive MtftpEvent where
  | oack (allocs : TftpAllocations) (options : List TftpOption)
  | multicast (rc : Errno)
  | data (allocs : TftpAllocations) (wire : ℕ) (data : Bytes)
  | error (errcode : ℕ)
  | timer (opened : Option Errno) (fail : Bool)

/-- A request that is done is not called any more. -/
def mtftpStep (arch : Platform) (request : MtftpRequest) (event : MtftpEvent) : MtftpRequest :=
  if request.tftp.status ≠ .active then request
  else
    match event with
    | .oack allocs options =>
      { request with tftp := (tftpRxOack arch allocs request.tftp options).1 }
    | .multicast rc =>
      { request with tftp := tftpDone { request.tftp with peer := true } (some rc) }
    | .data allocs wire data =>
      { request with tftp := (tftpRxData arch allocs request.tftp wire data).1 }
    | .error errcode => { request with tftp := tftpRxError request.tftp errcode }
    | .timer opened fail => mtftpTimerExpired opened fail request

end Ipxe.Model
