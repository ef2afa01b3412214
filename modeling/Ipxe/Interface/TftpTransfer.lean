import Ipxe.Library.Runs
import Ipxe.Model.Tftp

/-!
# Transfers from a lock-step server

A server sends the next block of its file only when it has got the ACK for the one before, but may
repeat a block at any time, and any packet may get lost.  On the wire a block has the low 16 bits
of its number.
-/

namespace Ipxe.Interface

open Library Model

variable {arch : Platform}

/-- A server, with the sizes that the client takes from its OACK.  One that does not acknowledge
options begins with its first block. -/
structure TftpServer (arch : Platform) where
  file : Bytes
  oack : Option (List TftpOption)
  blksize : ℕ
  tsize : ℕ
  negotiated : tftpProcessOptions arch (tftpDefaultBlksize, 0) (oack.getD []) = .ok (blksize, tsize)
  /-- It announces no more than there is. -/
  announced : tsize ≤ file.length

variable (server : TftpServer arch)

/-- The data of a block, the first one being block 0. -/
def TftpServer.block (number : ℕ) : Bytes :=
  (server.file.drop (number * server.blksize)).take server.blksize

/-- The last block, which is shorter than the others. -/
def TftpServer.lastBlock : ℕ := server.file.length / server.blksize

/-- A request and its server, which has got the ACKs for the first `acked` blocks. -/
structure TftpTransfer where
  tftp : TftpRequest
  serving : Bool
  acked : ℕ

inductive TftpEvent where
  /-- the client gets the OACK -/
  | oack (allocs : TftpAllocations) (ackLost : Bool)
  /-- the client gets a block -/
  | data (block : ℕ) (allocs : TftpAllocations) (ackLost : Bool)
  /-- the client gets an ERROR -/
  | error (errcode : ℕ)
  | timeout (fail ackLost : Bool)

def TftpServer.start : TftpTransfer where
  tftp := {}
  serving := server.oack.isNone
  acked := 0

variable (transfer : TftpTransfer)

/-- The server gets an ACK: for its OACK, for the block that it sends, or one it ignores. -/
def TftpTransfer.receiveAck (ackLost : Bool) : Option ℕ → TftpTransfer
  | none => transfer
  | some number =>
    if ackLost then transfer
    else if transfer.serving then
      if number = (transfer.acked + 1) % 2 ^ 16 then { transfer with acked := transfer.acked + 1 }
      else transfer
    else if number = 0 then { transfer with serving := true }
    else transfer

/-- A request that is complete has closed its sockets. -/
def TftpServer.step (event : TftpEvent) : TftpTransfer :=
  if transfer.tftp.status ≠ .active then transfer
  else
    match event with
    | .oack allocs ackLost =>
      let received := tftpRxOack arch allocs transfer.tftp (server.oack.getD [])
      TftpTransfer.receiveAck { transfer with tftp := received.1 } ackLost received.2
    | .data block allocs ackLost =>
      let received := tftpRxData arch allocs transfer.tftp ((block + 1) % 2 ^ 16)
        (server.block block)
      TftpTransfer.receiveAck { transfer with tftp := received.1 } ackLost received.2
    | .error errcode => { transfer with tftp := tftpRxError transfer.tftp errcode }
    | .timeout fail ackLost =>
      let expired := tftpTimerExpired fail transfer.tftp
      TftpTransfer.receiveAck { transfer with tftp := expired.1 } ackLost expired.2

/-- What a lock-step server does. -/
def TftpServer.LockStep : TftpEvent → Prop
  | .oack _ _ => server.oack.isSome
  | .data block _ _ => transfer.serving ∧ block ≤ transfer.acked ∧ block ≤ server.lastBlock
  | .error _ | .timeout _ _ => True

/-- What the client can cope with: a block whose number has the same high bits as that of the next
one, of a file that is not empty and has its sizes within the types of C. -/
structure TftpServer.CopesWith (server : TftpServer arch) (firstGap block : ℕ) : Prop where
  high : (block + 1) / 2 ^ 16 = (firstGap + 1) / 2 ^ 16
  pos : 0 < block * server.blksize + (server.block block).length
  offset : block * server.blksize < 2 ^ 32
  fits : block * server.blksize + (server.block block).length < 2 ^ arch.sizeBits
  small : (block * server.blksize + (server.block block).length) / server.blksize +
    arch.sizeBits < 2 ^ 32

/-- Every block that comes while the request is active is one that the client can cope with, and so
is the size that is announced. -/
def TftpServer.Regular : TftpEvent → Prop
  | .oack _ _ => server.tsize / server.blksize + arch.sizeBits < 2 ^ 32
  | .data block _ _ => transfer.tftp.status = .active →
      server.CopesWith transfer.tftp.bitmap.firstGap block
  | .error _ | .timeout _ _ => True

end Ipxe.Interface
