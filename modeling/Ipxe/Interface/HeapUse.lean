import Ipxe.Library.Intervals
import Ipxe.Library.Runs
import Ipxe.Model.Malloc

/-!
# The use of the heap

The heap together with the blocks that its users hold, and what is meant by the heap being
in order.
-/

namespace Ipxe.Interface

open Library Model

section

variable (arch : HeapArch)

/-- A block in use, as it was asked for. -/
structure LiveBlock where
  ptr : BitVec arch.w
  size : BitVec arch.w
  align : BitVec arch.w
  offset : BitVec arch.w
  /-- allocated by `realloc` -/
  autosized : Bool

structure HeapState where
  heap : Heap arch := {}
  live : List (LiveBlock arch) := []
  /-- the free list is not a list any more -/
  corrupted : Bool := false

structure HeapRegion where
  start : BitVec arch.w
  len : BitVec arch.w
  fits : start.toNat + len.toNat ≤ 2 ^ arch.w

/-- The calls of the users of the heap; `discards` is what the cache discarders free. -/
inductive HeapOp where
  | alloc (size align offset : BitVec arch.w) (discards : List (List (BitVec arch.w × BitVec arch.w)))
  | free (ptr size : BitVec arch.w)
  | realloc (oldPtr newSize : BitVec arch.w) (discards : List (List (BitVec arch.w × BitVec arch.w)))

variable {arch}

def LiveBlock.extent (block : LiveBlock arch) : Interval :=
  ⟨block.ptr.toNat, block.ptr.toNat + (actualSize block.size).toNat⟩

def blockExtent (block : MemoryBlock arch) : Interval :=
  ⟨block.addr.toNat, block.addr.toNat + block.size.toNat⟩

variable (region : HeapRegion arch)

def HeapRegion.extent : Interval :=
  ⟨region.start.toNat, region.start.toNat + region.len.toNat⟩

variable (live : List (LiveBlock arch)) (frees : List (BitVec arch.w × BitVec arch.w))

/-- The blocks that remain in use. -/
def released : List (LiveBlock arch) :=
  live.filter fun block => block.ptr ∉ frees.map Prod.fst

variable (oldPtr : BitVec arch.w)

/-- The block that `realloc` frees. -/
def oldBlock : BitVec arch.w :=
  oldPtr - BitVec.ofNat arch.w arch.sizeofSize

/-- `realloc` has a block to free. -/
def HasOld : Prop := oldPtr ≠ 0 ∧ oldPtr ≠ nowhere arch

instance (oldPtr : BitVec arch.w) : Decidable (HasOld oldPtr) := inferInstanceAs (Decidable (_ ∧ _))

def dropOld : List (LiveBlock arch) :=
  if HasOld oldPtr then live.filter fun block => block.ptr ≠ oldBlock oldPtr else live

variable (state : HeapState arch)

def heapStep : HeapOp arch → HeapState arch
  | .alloc size align offset discards =>
    match allocMemblock state.heap size align offset discards with
    | none => { state with corrupted := true }
    | some allocation =>
      let live := released state.live allocation.discarded
      { state with
        heap := allocation.heap
        live := if allocation.ptr = 0 then live
          else ⟨allocation.ptr, size, align, offset, false⟩ :: live }
  | .free ptr size =>
    match freeMemblock state.heap ptr size with
    | none => { state with corrupted := true }
    | some heap => { state with heap := heap, live := released state.live [(ptr, size)] }
  | .realloc oldPtr newSize discards =>
    match Model.realloc state.heap oldPtr newSize discards with
    | none => { state with corrupted := true }
    | some allocation =>
      let live := released state.live allocation.discarded
      { state with
        heap := allocation.heap
        live :=
          -- nothing is freed if the allocation fails
          if allocation.ptr = 0 then live
          else if newSize = 0 then dropOld live oldPtr
          else
            ⟨oldBlock allocation.ptr, newSize + BitVec.ofNat arch.w arch.sizeofSize, 1, 0, true⟩ ::
              dropOld live oldPtr }

/-- Blocks that are freed are in use, and each is freed once. -/
def FreesLive : Prop :=
  (frees.map Prod.fst).Nodup ∧
    ∀ free ∈ frees, ∃ block ∈ live, block.ptr = free.1 ∧ block.size = free.2

/-- The callers free only blocks in use, each in the way it was allocated. -/
def UsersBehave : HeapOp arch → Prop
  | .alloc _ _ _ discards => FreesLive state.live discards.flatten
  | .free ptr size => ptr = 0 ∨ FreesLive state.live [(ptr, size)]
  | .realloc oldPtr _ discards =>
    FreesLive state.live discards.flatten ∧
      (HasOld oldPtr → ∃ block ∈ state.live, block.autosized = true ∧
        block.ptr = oldBlock oldPtr ∧ block.ptr ∉ discards.flatten.map Prod.fst)

instance (live : List (LiveBlock arch)) (frees : List (BitVec arch.w × BitVec arch.w)) :
    Decidable (FreesLive live frees) :=
  -- by the list: there are finitely many addresses, too
  have : Decidable (∀ free ∈ frees, ∃ block ∈ live, block.ptr = free.1 ∧ block.size = free.2) :=
    List.decidableBAll _ _
  inferInstanceAs (Decidable (_ ∧ _))

instance (state : HeapState arch) : (op : HeapOp arch) → Decidable (UsersBehave state op)
  | .alloc _ _ _ _ => inferInstanceAs (Decidable (FreesLive _ _))
  | .free _ _ => inferInstanceAs (Decidable (_ ∨ _))
  | .realloc _ _ _ => inferInstanceAs (Decidable (_ ∧ _))

def populated : HeapState arch :=
  match mpopulate {} region.start region.len with
  | none => { corrupted := true }
  | some heap => { heap := heap }

/-- Alignments that can be asked for: powers of two, and none at all (zero), which makes the
offset an address. -/
def IsAlignment (align : BitVec arch.w) : Prop := align = 0 ∨ ∃ k, align.toNat = 2 ^ k

structure HeapInOrder (region : HeapRegion arch) (state : HeapState arch) : Prop where
  intact : state.corrupted = false
  live_disjoint : state.live.Pairwise fun a b => Disjoint a.extent.toSet b.extent.toSet
  live_inside : ∀ block ∈ state.live, block.extent.Within region.extent
  /-- a block has as much room as was asked for -/
  live_room : ∀ block ∈ state.live, block.size.toNat ≤ (actualSize block.size).toNat
  live_aligned : ∀ block ∈ state.live, IsAlignment block.align →
    (virtToPhys block.ptr).toNat ≡ block.offset.toNat [MOD block.align.toNat]
  /-- ascending, disjoint and never adjacent -/
  free_ascending : state.heap.freeBlocks.Pairwise fun a b => (blockExtent a).hi < (blockExtent b).lo
  free_apart : ∀ a ∈ state.heap.freeBlocks, ∀ b ∈ state.live,
    Disjoint (blockExtent a).toSet b.extent.toSet

end

end Ipxe.Interface
