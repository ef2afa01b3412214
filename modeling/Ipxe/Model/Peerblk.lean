import Mathlib.Data.List.Basic

/-!
# PeerDist block downloads

The download queue of `net/peerblk.c` and the blocks, by number.  Peers and the origin server may
answer in any order, so the events of different blocks are interleaved freely.
-/

namespace Ipxe.Model

/-- The position in the list of peers: none yet, the head, or one of the peers. -/
inductive PeerdiscPeer where
  | null
  | head
  | peer
  deriving DecidableEq, Repr

/-- See include/ipxe/peerblk.h:46-129 -/
structure PeerdistBlock where
  /-- the interfaces are open -/
  xfer : Bool := true
  raw : Bool := false
  retrieval : Bool := false
  peer : PeerdiscPeer := .null
  /-- `queue` is not `NULL` -/
  queue : Bool := false
  cycles : ℕ := 0
  deriving DecidableEq, Repr

/-- The queue, and the blocks.
[include/ipxe/peerblk.h:132-148] -/
structure PeerdistBlockQueue where
  list : List ℕ := []
  count : BitVec 32 := 0
  max : BitVec 32
  blocks : ℕ → PeerdistBlock := fun _ => {}

/-- See 558-564 -/
def peerblkRawQueue : PeerdistBlockQueue := { max := 2 }

def PeerdistBlockQueue.update (queue : PeerdistBlockQueue) (b : ℕ)
    (change : PeerdistBlock → PeerdistBlock) : PeerdistBlockQueue :=
  { queue with blocks := Function.update queue.blocks b (change (queue.blocks b)) }

variable (queue : PeerdistBlockQueue) (b : ℕ)

/-- Add block to download queue.
[516-529] -/
def peerblkEnqueue : PeerdistBlockQueue :=
  let queue := queue.update b ({ · with queue := true })
  { queue with list := queue.list ++ [b] }

/-- Remove block from download queue.
[536-556] -/
def peerblkDequeue : PeerdistBlockQueue :=
  let queue := queue.update b ({ · with queue := false })
  if b ∉ queue.list then { queue with count := queue.count - 1 }
  else { queue with list := queue.list.erase b }

/-- Reset download attempt.
[166-196] -/
def peerblkReset : PeerdistBlockQueue :=
  let queue := queue.update b ({ · with raw := false, retrieval := false })
  if (queue.blocks b).queue then peerblkDequeue queue b else queue

/-- Close block download.
[204-221] -/
def peerblkClose : PeerdistBlockQueue :=
  (peerblkReset queue b).update b ({ · with xfer := false })

/-- Finish block download attempt: `ok` if it has completed and the digest matches.
[296-343] -/
def peerblkDone (ok : Bool) : PeerdistBlockQueue :=
  if ok then peerblkClose queue b else peerblkReset queue b

/-- Block download queue process: `opened` if the connection can be opened.
[479-508] -/
def peerblkStep (opened : Bool) : PeerdistBlockQueue :=
  if queue.count ≥ queue.max then queue
  else
    match queue.list with
    | [] => queue
    | b :: list =>
      let queue := { queue with list := list }
      if opened then
        { queue.update b ({ · with raw := true }) with count := queue.count + 1 }
      else peerblkClose queue b

/-- Handle retry timer expiry: `opened` says of each peer that is left whether a retrieval from it
can be opened.
[1279-1352] -/
def peerblkExpired (opened : List Bool) : PeerdistBlockQueue :=
  let queue := peerblkReset queue b
  let cycles := (queue.blocks b).cycles + if (queue.blocks b).peer = .head then 1 else 0
  let close := (queue.blocks b).peer = .head ∧ cycles ≥ 4
  let queue := queue.update b ({ · with cycles := cycles })
  if close then peerblkClose queue b
  else if true ∈ opened then queue.update b ({ · with peer := .peer, retrieval := true })
  else peerblkEnqueue (queue.update b ({ · with peer := .head })) b

inductive PeerblkEvent where
  | step (opened : Bool)
  | expired (b : ℕ) (opened : List Bool)
  | done (b : ℕ) (ok : Bool)
  | close (b : ℕ)
  deriving DecidableEq, Repr

/-- Once a block is closed its timer is stopped and its interfaces are shut down. -/
def peerblkEvent : PeerblkEvent → PeerdistBlockQueue
  | .step opened => peerblkStep queue opened
  | .expired b opened => if (queue.blocks b).xfer then peerblkExpired queue b opened else queue
  | .done b ok => if (queue.blocks b).xfer then peerblkDone queue b ok else queue
  | .close b => if (queue.blocks b).xfer then peerblkClose queue b else queue

end Ipxe.Model
