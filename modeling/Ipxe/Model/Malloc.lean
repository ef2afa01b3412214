import Mathlib.Data.BitVec
import Mathlib.Tactic

/-!
# Dynamic memory allocation

`core/malloc.c`.  Addresses and sizes are words of the width of `size_t`, and the gaps that
`free_memblock` looks at are their signed differences.  A free block is its address and its size;
`sizes` holds the size words of `realloc`.  What `discard_cache` frees is an argument.

Left out: Valgrind, debugging output and assertions.
-/

namespace Ipxe.Model

/-- What differs between the builds.  The heap lies in one mapping, so that its physical
addresses are at a fixed distance from the virtual ones. -/
structure HeapArch where
  /-- bits of `size_t` -/
  w : ℕ
  /-- `fls ( sizeof ( struct memory_block ) - 1 )` -/
  minShift : ℕ
  /-- `sizeof ( size_t )` -/
  sizeofSize : ℕ
  virtOffset : BitVec w
  minShift_lt : minShift < w

section

variable (arch : HeapArch)

/-- A free block of memory.
[44-60] -/
structure MemoryBlock where
  addr : BitVec arch.w
  size : BitVec arch.w
  deriving DecidableEq

/-- See 62-63 -/
def minMemblockSize : BitVec arch.w := BitVec.twoPow arch.w arch.minShift

/-- Address for zero-length memory blocks.
[88] -/
def nowhere : BitVec arch.w := ~~~0

structure Heap where
  freeBlocks : List (MemoryBlock arch) := []
  freemem : BitVec arch.w := 0
  usedmem : BitVec arch.w := 0
  maxusedmem : BitVec arch.w := 0
  /-- the size of the autosized block at an address -/
  sizes : BitVec arch.w → BitVec arch.w := fun _ => 0

variable {arch}

def virtToPhys (addr : BitVec arch.w) : BitVec arch.w := addr + arch.virtOffset

/-- Round up size to multiple of `MIN_MEMBLOCK_SIZE`.
[299-300,425-426] -/
def actualSize (size : BitVec arch.w) : BitVec arch.w :=
  (size + minMemblockSize arch - 1) &&& ~~~(minMemblockSize arch - 1)

/-- See 311 -/
def alignMask (align : BitVec arch.w) : BitVec arch.w := (align - 1) ||| (minMemblockSize arch - 1)

/-- Search through blocks for the first one with enough space, and split it into pre-block,
block, and post-block.  A pre-block or a post-block that is too small is leaked.
[317-374] -/
def allocSearch (actual mask offset : BitVec arch.w) :
    List (MemoryBlock arch) → Option (BitVec arch.w × List (MemoryBlock arch))
  | [] => none
  | block :: blocks =>
    let preSize := (offset - virtToPhys block.addr) &&& mask
    if block.size < preSize ∨ block.size - preSize < actual then
      (allocSearch actual mask offset blocks).map fun found => (found.1, block :: found.2)
    else
      let postSize := block.size - preSize - actual
      let ptr := block.addr + preSize
      let post := if postSize < minMemblockSize arch then [] else [⟨ptr + actual, postSize⟩]
      let pre := if preSize < minMemblockSize arch then [] else [⟨block.addr, preSize⟩]
      some (ptr, pre ++ post ++ blocks)

/-- Insert/merge into free list.  There is no list any more if the block that has just been
taken off it is the one to insert before.
[450-494] -/
def insertFree (actual : BitVec arch.w) :
    MemoryBlock arch → List (MemoryBlock arch) → Option (List (MemoryBlock arch))
  | freeing, [] => some [freeing]
  | freeing, block :: blocks =>
    let gapBefore := (freeing.addr - (block.addr + block.size)).toInt
    let gapAfter := (block.addr - (freeing.addr + freeing.size)).toInt
    if gapBefore = 0 then
      if gapAfter ≥ 0 then none
      else insertFree actual ⟨block.addr, block.size + actual⟩ blocks
    else if gapAfter = 0 then some (⟨freeing.addr, freeing.size + block.size⟩ :: blocks)
    else if gapAfter > 0 then some (freeing :: block :: blocks)
    else (insertFree actual freeing blocks).map (block :: ·)

variable (heap : Heap arch)

/-- Free a memory block.
[404-499] -/
def freeMemblock (ptr size : BitVec arch.w) : Option (Heap arch) :=
  if ptr = 0 then some heap
  else
    let actual := actualSize size
    (insertFree actual ⟨ptr, actual⟩ heap.freeBlocks).map fun blocks =>
      { heap with
        freeBlocks := blocks
        freemem := heap.freemem + actual
        usedmem := heap.usedmem - actual }

/-- What the cache discarders free.
[242-252] -/
def discardCache (frees : List (BitVec arch.w × BitVec arch.w)) : Option (Heap arch) :=
  frees.foldlM (fun heap block => freeMemblock heap block.1 block.2) heap

/-- The result of an allocation: the pointer, or NULL, and what has been discarded for it. -/
structure Allocation (arch : HeapArch) where
  heap : Heap arch
  ptr : BitVec arch.w
  discarded : List (BitVec arch.w × BitVec arch.w) := []

/-- The allocation loop; each turn but the last discards something.
[315-389] -/
def allocLoop (actual mask offset : BitVec arch.w) (heap : Heap arch)
    (discards : List (List (BitVec arch.w × BitVec arch.w))) : Option (Allocation arch) :=
  match allocSearch actual mask offset heap.freeBlocks, discards with
  | some (ptr, blocks), _ =>
    let usedmem := heap.usedmem + actual
    some
      { heap :=
          { heap with
            freeBlocks := blocks
            freemem := heap.freemem - actual
            usedmem := usedmem
            maxusedmem := if usedmem > heap.maxusedmem then usedmem else heap.maxusedmem }
        ptr := ptr }
  | none, [] => some { heap := heap, ptr := 0 }
  | none, frees :: discards => do
    let heap ← discardCache heap frees
    let allocation ← allocLoop actual mask offset heap discards
    some { allocation with discarded := frees ++ allocation.discarded }

/-- Allocate a memory block.
[279-394] -/
def allocMemblock (size align offset : BitVec arch.w)
    (discards : List (List (BitVec arch.w × BitVec arch.w))) : Option (Allocation arch) :=
  let actual := actualSize size
  if actual = 0 then some { heap := heap, ptr := 0 }
  else allocLoop actual (alignMask align) offset heap discards

/-- The part of `realloc` that frees the old block, whose size it reads.
[549-565] -/
def freeOld (oldPtr : BitVec arch.w) : Option (Heap arch) :=
  if oldPtr ≠ 0 ∧ oldPtr ≠ nowhere arch then
    let oldBlock := oldPtr - BitVec.ofNat arch.w arch.sizeofSize
    freeMemblock heap oldBlock (heap.sizes oldBlock)
  else some heap

/-- Reallocate memory.
[521-572] -/
def realloc (oldPtr newSize : BitVec arch.w)
    (discards : List (List (BitVec arch.w × BitVec arch.w))) : Option (Allocation arch) :=
  if newSize = 0 then do
    let heap ← freeOld heap oldPtr
    some { heap := heap, ptr := nowhere arch }
  else
    let newTotalSize := newSize + BitVec.ofNat arch.w arch.sizeofSize
    if newTotalSize < newSize then some { heap := heap, ptr := 0 }
    else do
      let allocation ← allocMemblock heap newTotalSize 1 0 discards
      if allocation.ptr = 0 then some allocation
      else
        let sizes := Function.update allocation.heap.sizes allocation.ptr newTotalSize
        let heap ← freeOld { allocation.heap with sizes := sizes } oldPtr
        some { allocation with
          heap := heap
          ptr := allocation.ptr + BitVec.ofNat arch.w arch.sizeofSize }

/-- Add memory to allocation pool.
[648-660] -/
def mpopulate (start len : BitVec arch.w) : Option (Heap arch) :=
  let len := len &&& ~~~(minMemblockSize arch - 1)
  (freeMemblock heap start len).map fun heap => { heap with usedmem := heap.usedmem + len }

end

end Ipxe.Model
