import Ipxe.Analysis.HeapFreeList

/-!
# The heap stays in order

As long as its users free only what they hold, the blocks in use are disjoint from each other and
from the free list (`HeapInv`).
-/

namespace Ipxe.Analysis

open Library Model Interface
open List hiding Disjoint

section

variable {arch : HeapArch} {size : BitVec arch.w} {block : LiveBlock arch}
  {frees : List (BitVec arch.w × BitVec arch.w)} {actual mask offset ptr : BitVec arch.w}
  {discards : List (List (BitVec arch.w × BitVec arch.w))} {oldPtr newSize : BitVec arch.w}
  {region : HeapRegion arch}

theorem toNat_actualSize (size : BitVec arch.w) :
    (actualSize size).toNat =
      (size.toNat + 2 ^ arch.minShift - 1) % 2 ^ arch.w / 2 ^ arch.minShift * 2 ^ arch.minShift := by
  have hs := arch.minShift_lt
  have hsum : size + minMemblockSize arch - 1 =
      BitVec.ofNat arch.w (size.toNat + 2 ^ arch.minShift - 1) := by
    have hpos : 1 ≤ 2 ^ arch.minShift := Nat.one_le_two_pow
    have hmin : minMemblockSize arch = BitVec.ofNat arch.w (2 ^ arch.minShift) :=
      BitVec.eq_of_toNat_eq (by rw [minMemblockSize, BitVec.toNat_twoPow, BitVec.toNat_ofNat])
    rw [sub_eq_iff_eq_add, hmin]
    nth_rewrite 1 [← BitVec.setWidth_eq size, ← BitVec.ofNat_toNat]
    rw [← BitVec.ofNat_add, show (1 : BitVec arch.w) = BitVec.ofNat arch.w 1 from rfl,
      ← BitVec.ofNat_add]
    congr 1
    omega
  rw [actualSize, minMemblockSize, toNat_and_not_low _ hs, ← minMemblockSize, hsum,
    BitVec.toNat_ofNat]

theorem le_actualSize (h : actualSize size ≠ 0) : size.toNat ≤ (actualSize size).toNat := by
  have hs := arch.minShift_lt
  have hpow : 2 ^ arch.minShift < 2 ^ arch.w := Nat.pow_lt_pow_right (by norm_num) hs
  have hne : (actualSize size).toNat ≠ 0 := BitVec.toNat_ne.1 h
  rw [toNat_actualSize] at hne ⊢
  rcases lt_or_ge (size.toNat + 2 ^ arch.minShift - 1) (2 ^ arch.w) with hfits | hwraps
  · rw [Nat.mod_eq_of_lt hfits]
    have hdiv := Nat.div_add_mod' (size.toNat + 2 ^ arch.minShift - 1) (2 ^ arch.minShift)
    omega
  · exfalso
    have hmod : (size.toNat + 2 ^ arch.minShift - 1) % 2 ^ arch.w =
        size.toNat + 2 ^ arch.minShift - 1 - 2 ^ arch.w := by
      rw [Nat.mod_eq_sub_mod hwraps, Nat.mod_eq_of_lt (by omega)]
    rw [Nat.div_eq_of_lt (by omega)] at hne
    exact hne (zero_mul _)

theorem actualSize_pos (h : actualSize size ≠ 0) : 0 < (actualSize size).toNat :=
  (BitVec.pos_iff_ne_zero _).2 h

def freeExtents (heap : Heap arch) : List Interval := heap.freeBlocks.map blockExtent

structure HeapInv (window : HeapWindow arch) (heap : Heap arch) (live : List (LiveBlock arch)) :
    Prop where
  free : Separated (freeExtents heap)
  free_inside : covered (freeExtents heap) ⊆ window.extent.toSet
  live_inside : ∀ block ∈ live, block.extent.Within window.extent
  live_proper : ∀ block ∈ live, actualSize block.size ≠ 0
  live_disjoint : live.Pairwise fun a b => Disjoint a.extent.toSet b.extent.toSet
  apart : ∀ block ∈ live, Disjoint block.extent.toSet (covered (freeExtents heap))
  sizes : ∀ block ∈ live, block.autosized = true → heap.sizes block.ptr = block.size
  placed : ∀ block ∈ live, (block.offset - virtToPhys block.ptr) &&& alignMask block.align = 0

section

variable {window : HeapWindow arch} {heap : Heap arch} {live : List (LiveBlock arch)}

theorem HeapInv.proper (hinv : HeapInv window heap live) (h : block ∈ live) :
    block.extent.lo < block.extent.hi := by
  have hpos := actualSize_pos (hinv.live_proper block h)
  simp only [LiveBlock.extent]
  omega

theorem HeapInv.live_ne_zero (hinv : HeapInv window heap live) (h : block ∈ live) :
    block.ptr ≠ 0 := by
  intro hzero
  have hpos := window.pos
  have hlo : window.lo ≤ block.ptr.toNat := (hinv.live_inside block h).1
  rw [hzero] at hlo
  exact absurd hlo (by simpa using hpos.ne')

theorem within_of_subset {i : Interval} (hproper : i.lo < i.hi)
    (h : i.toSet ⊆ window.extent.toSet) : i.Within window.extent :=
  (Set.Ico_subset_Ico_iff hproper).1 h

section

variable (hinv : HeapInv window heap live)

include hinv

theorem HeapInv.free_within {block : MemoryBlock arch} (h : block ∈ heap.freeBlocks) :
    (blockExtent block).Within window.extent := by
  have hmem : blockExtent block ∈ freeExtents heap := mem_map_of_mem h
  exact within_of_subset (hinv.free.proper _ hmem)
    ((toSet_subset_covered hmem).trans hinv.free_inside)

theorem HeapInv.sublist {live' : List (LiveBlock arch)} (h : live'.Sublist live) :
    HeapInv window heap live' :=
  { hinv with
    live_inside := fun b hb => hinv.live_inside b (h.subset hb)
    live_proper := fun b hb => hinv.live_proper b (h.subset hb)
    live_disjoint := hinv.live_disjoint.sublist h
    apart := fun b hb => hinv.apart b (h.subset hb)
    sizes := fun b hb => hinv.sizes b (h.subset hb)
    placed := fun b hb => hinv.placed b (h.subset hb) }

theorem HeapInv.disjoint_of_ne {a b : LiveBlock arch} (ha : a ∈ live) (hb : b ∈ live)
    (hne : a.ptr ≠ b.ptr) :
    Disjoint a.extent.toSet b.extent.toSet := by
  exact hinv.live_disjoint.forall ha hb fun heq => hne (by rw [heq])

/-- What becomes of a heap when a block is freed. -/
structure Frees (heap : Heap arch) (block : LiveBlock arch) (heap' : Heap arch) : Prop where
  returns : Model.freeMemblock heap block.ptr block.size = some heap'
  sizes : heap'.sizes = heap.sizes
  freemem : heap'.freemem = heap.freemem + actualSize block.size
  separated : Separated (freeExtents heap')
  covered : covered (freeExtents heap') = covered (freeExtents heap) ∪ block.extent.toSet

theorem HeapInv.freesBlock (hlive : block ∈ live) : ∃ heap', Frees heap block heap' := by
  have hproper := hinv.proper hlive
  have hdisj := hinv.apart block hlive
  obtain ⟨blocks, hinsert, hblocks⟩ := @insertFree_eq_coalesce arch window (actualSize block.size)
    ⟨block.ptr, actualSize block.size⟩ heap.freeBlocks hinv.free hproper hdisj
    (hinv.live_inside block hlive) (fun b hb => hinv.free_within hb) (.inl rfl)
  obtain ⟨hsep, hcovered⟩ := coalesce_spec hinv.free hproper hdisj
  have hextents : blocks.map blockExtent = coalesce block.extent (freeExtents heap) := hblocks
  rw [← hextents] at hsep hcovered
  refine ⟨{ heap with
    freeBlocks := blocks
    freemem := heap.freemem + actualSize block.size
    usedmem := heap.usedmem - actualSize block.size }, ?_, rfl, rfl, hsep, hcovered⟩
  simp only [Model.freeMemblock, if_neg (hinv.live_ne_zero hlive), hinsert, Option.map_some]

theorem HeapInv.freeMemblock (hlive : block ∈ live) :
    ∃ heap', Frees heap block heap' ∧
      HeapInv window heap' (live.filter fun other => other.ptr ≠ block.ptr) := by
  obtain ⟨heap', hfrees⟩ := hinv.freesBlock hlive
  have hrest : HeapInv window heap (live.filter fun other => other.ptr ≠ block.ptr) :=
    hinv.sublist filter_sublist
  have hcovered := hfrees.covered
  refine ⟨heap', hfrees, { hrest with
    free := hfrees.separated
    free_inside := ?_
    apart := fun other hother => ?_
    sizes := hfrees.sizes ▸ hrest.sizes }⟩
  · exact (subset_of_eq hcovered).trans
      (Set.union_subset hinv.free_inside (hinv.live_inside block hlive).subset)
  · obtain ⟨hmem, hne⟩ := mem_filter.1 hother
    refine Disjoint.mono_right (subset_of_eq hcovered) ?_
    exact Set.disjoint_union_right.2
      ⟨hinv.apart other hmem, hinv.disjoint_of_ne hmem hlive (by simpa using hne)⟩

end

section

variable (live : List (LiveBlock arch))

theorem released_nil : released live [] = live := by
  simp [released]

theorem released_cons (free : BitVec arch.w × BitVec arch.w)
    (frees : List (BitVec arch.w × BitVec arch.w)) :
    released live (free :: frees) =
      released (live.filter fun other => other.ptr ≠ free.1) frees := by
  simp only [released, filter_filter]
  congr 1
  funext block
  simp only [map_cons, mem_cons, not_or, Bool.decide_and]
  rw [Bool.and_comm]

theorem released_append (frees frees' : List (BitVec arch.w × BitVec arch.w)) :
    released live (frees ++ frees') = released (released live frees) frees' := by
  induction frees generalizing live with
  | nil => rw [nil_append, released_nil]
  | cons free frees ih => rw [cons_append, released_cons, ih, ← released_cons]

end

theorem freesLive_tail {free : BitVec arch.w × BitVec arch.w} (h : FreesLive live (free :: frees)) :
    FreesLive (live.filter fun other => other.ptr ≠ free.1) frees := by
  obtain ⟨hnodup, hlive⟩ := h
  rw [map_cons, nodup_cons] at hnodup
  refine ⟨hnodup.2, fun other hother => ?_⟩
  obtain ⟨block, hblock, hptr, hsize⟩ := hlive other (mem_cons_of_mem _ hother)
  refine ⟨block, mem_filter.2 ⟨hblock, decide_eq_true fun heq => ?_⟩, hptr, hsize⟩
  exact hnodup.1 (heq ▸ hptr ▸ mem_map_of_mem hother)

theorem freesLive_append {frees' : List (BitVec arch.w × BitVec arch.w)}
    (h : FreesLive live (frees ++ frees')) :
    FreesLive live frees ∧ FreesLive (released live frees) frees' := by
  refine ⟨⟨?_, fun free hfree => h.2 free (mem_append_left _ hfree)⟩, ?_⟩
  · have hnodup := h.1
    rw [map_append] at hnodup
    exact hnodup.of_append_left
  · induction frees generalizing live with
    | nil => rwa [released_nil]
    | cons free frees ih =>
      rw [released_cons]
      exact ih (freesLive_tail h)

theorem HeapInv.discardCache (hinv : HeapInv window heap live) (h : FreesLive live frees) :
    ∃ heap', Model.discardCache heap frees = some heap' ∧ heap'.sizes = heap.sizes ∧
      HeapInv window heap' (released live frees) := by
  induction frees generalizing heap live with
  | nil => exact ⟨heap, rfl, rfl, hinv.sublist filter_sublist⟩
  | cons free frees ih =>
    obtain ⟨block, hblock, hptr, hsize⟩ := h.2 free (by simp)
    obtain ⟨heap₁, hfree, hinv₁⟩ := hinv.freeMemblock hblock
    rw [hptr] at hinv₁
    obtain ⟨heap₂, hdiscard, hsizes₂, hinv₂⟩ := ih hinv₁ (freesLive_tail h)
    refine ⟨heap₂, ?_, hsizes₂.trans hfree.sizes, released_cons live free frees ▸ hinv₂⟩
    rw [Model.discardCache, foldlM_cons, ← hptr, ← hsize, hfree.returns]
    exact hdiscard

/-! ## Allocating -/

/-- A piece of memory that is neither free nor in use. -/
structure Unused (window : HeapWindow arch) (heap : Heap arch) (live : List (LiveBlock arch))
    (piece : Interval) : Prop where
  within : piece.Within window.extent
  not_free : Disjoint piece.toSet (covered (freeExtents heap))
  not_live : ∀ block ∈ live, Disjoint block.extent.toSet piece.toSet

/-- What an allocation returns: a pointer to memory that has been taken off the free list, or
NULL. -/
structure Allocates (window : HeapWindow arch) (heap : Heap arch) (live : List (LiveBlock arch))
    (actual mask offset : BitVec arch.w) (discards : List (List (BitVec arch.w × BitVec arch.w)))
    (allocation : Allocation arch) : Prop where
  discarded : ∃ rest, discards.flatten = allocation.discarded ++ rest
  inv : HeapInv window allocation.heap (released live allocation.discarded)
  sizes : allocation.heap.sizes = heap.sizes
  unused : allocation.ptr ≠ 0 → Unused window allocation.heap (released live allocation.discarded)
    ⟨allocation.ptr.toNat, allocation.ptr.toNat + actual.toNat⟩
  placed : allocation.ptr ≠ 0 → (offset - virtToPhys allocation.ptr) &&& mask = 0

theorem HeapInv.carve (hinv : HeapInv window heap live) {blocks : List (MemoryBlock arch)}
    {heap' : Heap arch} (hactual : actual ≠ 0)
    (h : allocSearch actual mask offset heap.freeBlocks = some (ptr, blocks))
    (hblocks : heap'.freeBlocks = blocks) (hsizes : heap'.sizes = heap.sizes) :
    HeapInv window heap' live ∧
      Unused window heap' live ⟨ptr.toNat, ptr.toNat + actual.toNat⟩ ∧
      (offset - virtToPhys ptr) &&& mask = 0 := by
  have hcarved : Carved actual mask offset ptr heap.freeBlocks heap'.freeBlocks := by
    rw [hblocks]
    exact allocSearch_carved hinv.free
      (fun block hblock => (hinv.free_within hblock).2.trans window.le) hactual h
  have hsubset : covered (freeExtents heap') ⊆ covered (freeExtents heap) := hcarved.covered_subset
  have htaken : Interval.toSet ⟨ptr.toNat, ptr.toNat + actual.toNat⟩ ⊆ covered (freeExtents heap) :=
    hcarved.taken
  have hpos : 0 < actual.toNat := (BitVec.pos_iff_ne_zero _).2 hactual
  refine ⟨{ hinv with
    free := hcarved.separated
    free_inside := hsubset.trans hinv.free_inside
    apart := fun block hblock => (hinv.apart block hblock).mono_right hsubset
    sizes := hsizes ▸ hinv.sizes }, ⟨?_, hcarved.disjoint, ?_⟩, hcarved.placed⟩
  · exact within_of_subset (Nat.lt_add_of_pos_right hpos) (htaken.trans hinv.free_inside)
  · exact fun block hblock => (hinv.apart block hblock).mono_right htaken

def foundHeap (heap : Heap arch) (actual : BitVec arch.w) (blocks : List (MemoryBlock arch)) :
    Heap arch :=
  { heap with
    freeBlocks := blocks
    freemem := heap.freemem - actual
    usedmem := heap.usedmem + actual
    maxusedmem := if heap.usedmem + actual > heap.maxusedmem then heap.usedmem + actual
      else heap.maxusedmem }

theorem allocLoop_found {blocks : List (MemoryBlock arch)}
    (h : allocSearch actual mask offset heap.freeBlocks = some (ptr, blocks))
    (discards : List (List (BitVec arch.w × BitVec arch.w))) :
    Model.allocLoop actual mask offset heap discards =
      some { heap := foundHeap heap actual blocks, ptr := ptr } := by
  unfold Model.allocLoop
  rw [h]
  rfl

theorem allocLoop_nil (h : allocSearch actual mask offset heap.freeBlocks = none) :
    Model.allocLoop actual mask offset heap [] = some { heap := heap, ptr := 0 } := by
  simp only [Model.allocLoop, h]

variable {allocation : Allocation arch}

theorem allocLoop_cons (h : allocSearch actual mask offset heap.freeBlocks = none)
    {heap' : Heap arch}
    (hdiscard : Model.discardCache heap frees = some heap')
    (hloop : Model.allocLoop actual mask offset heap' discards = some allocation) :
    Model.allocLoop actual mask offset heap (frees :: discards) =
      some { allocation with discarded := frees ++ allocation.discarded } := by
  simp only [Model.allocLoop, h, hdiscard, hloop, Option.bind_eq_bind, Option.bind_some]

section

variable (hinv : HeapInv window heap live)

include hinv

theorem HeapInv.allocates_none (discards : List (List (BitVec arch.w × BitVec arch.w))) :
    Allocates window heap live actual mask offset discards { heap := heap, ptr := 0 } := by
  refine ⟨⟨discards.flatten, rfl⟩, ?_, rfl, nofun, nofun⟩
  rw [released_nil]
  exact hinv

theorem HeapInv.allocates_found (hactual : actual ≠ 0)
    {found : BitVec arch.w × List (MemoryBlock arch)}
    (h : allocSearch actual mask offset heap.freeBlocks = some found)
    (discards : List (List (BitVec arch.w × BitVec arch.w))) :
    Allocates window heap live actual mask offset discards
      { heap := foundHeap heap actual found.2, ptr := found.1 } := by
  obtain ⟨hinv', hunused, hplaced⟩ :=
    @HeapInv.carve arch actual mask offset found.1 window heap live hinv found.2
      (foundHeap heap actual found.2) hactual h rfl rfl
  refine ⟨⟨discards.flatten, rfl⟩, ?_, rfl, fun _ => ?_, fun _ => hplaced⟩
  · rw [released_nil]
    exact hinv'
  · rw [released_nil]
    exact hunused

theorem HeapInv.allocLoop (hactual : actual ≠ 0) (h : FreesLive live discards.flatten) :
    ∃ allocation, Model.allocLoop actual mask offset heap discards = some allocation ∧
      Allocates window heap live actual mask offset discards allocation := by
  induction discards generalizing heap live with
  | nil =>
    cases hsearch : allocSearch actual mask offset heap.freeBlocks with
    | none => exact ⟨_, allocLoop_nil hsearch, hinv.allocates_none _⟩
    | some found => exact ⟨_, allocLoop_found hsearch _, hinv.allocates_found hactual hsearch _⟩
  | cons frees discards ih =>
    cases hsearch : allocSearch actual mask offset heap.freeBlocks with
    | some found => exact ⟨_, allocLoop_found hsearch _, hinv.allocates_found hactual hsearch _⟩
    | none =>
      -- a discard, and another turn
      obtain ⟨hfrees, hrest⟩ := freesLive_append h
      obtain ⟨heap₁, hdiscard, hsizes, hinv₁⟩ := hinv.discardCache hfrees
      obtain ⟨allocation, hloop, hallocates⟩ := ih hinv₁ hrest
      obtain ⟨rest, hdiscarded⟩ := hallocates.discarded
      refine ⟨_, allocLoop_cons hsearch hdiscard hloop, ⟨rest, ?_⟩, ?_,
        hallocates.sizes.trans hsizes, ?_, hallocates.placed⟩
      · rw [flatten_cons, hdiscarded, append_assoc]
      · rw [released_append]
        exact hallocates.inv
      · rw [released_append]
        exact hallocates.unused

theorem HeapInv.allocMemblock (size align offset : BitVec arch.w)
    (h : FreesLive live discards.flatten) :
    ∃ allocation, Model.allocMemblock heap size align offset discards = some allocation ∧
      Allocates window heap live (actualSize size) (alignMask align) offset discards allocation ∧
      (allocation.ptr ≠ 0 → actualSize size ≠ 0) := by
  by_cases hactual : actualSize size = 0
  · exact ⟨_, by rw [Model.allocMemblock, if_pos hactual], hinv.allocates_none _, nofun⟩
  · obtain ⟨allocation, hloop, hallocates⟩ := @HeapInv.allocLoop arch
      (actualSize size) (alignMask align) offset discards window heap live hinv hactual h
    exact ⟨allocation, by rw [Model.allocMemblock, if_neg hactual, hloop], hallocates,
      fun _ => hactual⟩

theorem HeapInv.add (hunused : Unused window heap live block.extent)
    (hproper : actualSize block.size ≠ 0)
    (hsizes : block.autosized = true → heap.sizes block.ptr = block.size)
    (hplaced : (block.offset - virtToPhys block.ptr) &&& alignMask block.align = 0) :
    HeapInv window heap (block :: live) where
  free := hinv.free
  free_inside := hinv.free_inside
  live_inside := forall_mem_cons.2 ⟨hunused.within, hinv.live_inside⟩
  live_proper := forall_mem_cons.2 ⟨hproper, hinv.live_proper⟩
  live_disjoint := pairwise_cons.2 ⟨fun b hb => (hunused.not_live b hb).symm, hinv.live_disjoint⟩
  apart := forall_mem_cons.2 ⟨hunused.not_free, hinv.apart⟩
  sizes := forall_mem_cons.2 ⟨hsizes, hinv.sizes⟩
  placed := forall_mem_cons.2 ⟨hplaced, hinv.placed⟩

theorem HeapInv.ptr_ne {other : LiveBlock arch} (hunused : Unused window heap live block.extent)
    (hproper : actualSize block.size ≠ 0) (hother : other ∈ live) : other.ptr ≠ block.ptr := by
  intro heq
  have hmem : other.ptr.toNat ∈ other.extent.toSet := ⟨le_refl _, hinv.proper hother⟩
  have hmem' : other.ptr.toNat ∈ block.extent.toSet := by
    rw [heq]
    exact ⟨le_refl _, Nat.lt_add_of_pos_right (actualSize_pos hproper)⟩
  exact Set.disjoint_left.1 (hunused.not_live other hother) hmem hmem'

theorem HeapInv.setSize (hunused : Unused window heap live block.extent)
    (hproper : actualSize block.size ≠ 0) :
    HeapInv window { heap with sizes := Function.update heap.sizes block.ptr block.size } live :=
  { hinv with
    sizes := fun other hother hauto =>
      (Function.update_of_ne (hinv.ptr_ne hunused hproper hother) _ _).trans
        (hinv.sizes other hother hauto) }

end

theorem freeOld_old (hold : HasOld oldPtr) :
    Model.freeOld heap oldPtr =
      Model.freeMemblock heap (oldBlock oldPtr) (heap.sizes (oldBlock oldPtr)) :=
  if_pos hold

theorem freeOld_none (hold : ¬ HasOld oldPtr) : Model.freeOld heap oldPtr = some heap :=
  if_neg hold

theorem HeapInv.freeOld (hinv : HeapInv window heap live)
    (h : HasOld oldPtr → ∃ block ∈ live, block.autosized = true ∧ block.ptr = oldBlock oldPtr) :
    ∃ heap', Model.freeOld heap oldPtr = some heap' ∧
      HeapInv window heap' (dropOld live oldPtr) := by
  by_cases hold : HasOld oldPtr
  · obtain ⟨block, hblock, hauto, hptr⟩ := h hold
    obtain ⟨heap', hfree, hinv'⟩ := hinv.freeMemblock hblock
    refine ⟨heap', ?_, ?_⟩
    · rw [freeOld_old hold, ← hptr, hinv.sizes block hblock hauto, hfree.returns]
    · rw [dropOld, if_pos hold, ← hptr]
      exact hinv'
  · exact ⟨heap, freeOld_none hold, by rwa [dropOld, if_neg hold]⟩

theorem dataPtr_ne_zero (hsize : newSize ≠ 0)
    (hfits : ¬ newSize + BitVec.ofNat arch.w arch.sizeofSize < newSize)
    (hproper : actualSize (newSize + BitVec.ofNat arch.w arch.sizeofSize) ≠ 0)
    (hwithin : Interval.Within ⟨ptr.toNat, ptr.toNat +
      (actualSize (newSize + BitVec.ofNat arch.w arch.sizeofSize)).toNat⟩ window.extent) :
    ptr + BitVec.ofNat arch.w arch.sizeofSize ≠ 0 := by
  have hle := le_actualSize hproper
  have hpos : 0 < newSize.toNat := (BitVec.pos_iff_ne_zero _).2 hsize
  have hlo : window.lo ≤ ptr.toNat := hwithin.1
  have hhi := hwithin.2.trans window.le
  have hwpos := window.pos
  generalize hword : BitVec.ofNat arch.w arch.sizeofSize = word at *
  rw [BitVec.lt_def, BitVec.toNat_add] at hfits
  rw [BitVec.toNat_add] at hle
  have hsum : (newSize.toNat + word.toNat) % 2 ^ arch.w = newSize.toNat + word.toNat := by
    rcases lt_or_ge (newSize.toNat + word.toNat) (2 ^ arch.w) with hsmall | hlarge
    · exact Nat.mod_eq_of_lt hsmall
    · rw [Nat.mod_eq_sub_mod hlarge, Nat.mod_eq_of_lt (by omega)] at hfits
      omega
  intro hzero
  have hzero' : (ptr.toNat + word.toNat) % 2 ^ arch.w = 0 := by
    rw [← BitVec.toNat_add, hzero]
    rfl
  rw [Nat.mod_eq_of_lt (by simp only at hhi; omega)] at hzero'
  omega

theorem Allocates.newBlock
    (h : Allocates window heap live (actualSize newSize) (alignMask 1) 0 discards allocation)
    (hptr : allocation.ptr ≠ 0) (hproper : actualSize newSize ≠ 0) :
    HeapInv window
      { allocation.heap with sizes := Function.update allocation.heap.sizes allocation.ptr newSize }
      (⟨allocation.ptr, newSize, 1, 0, true⟩ :: released live allocation.discarded) := by
  have hunused := h.unused hptr
  have hset := @HeapInv.setSize arch ⟨allocation.ptr, newSize, 1, 0, true⟩ window allocation.heap
    (released live allocation.discarded) h.inv hunused hproper
  exact hset.add ⟨hunused.within, hunused.not_free, hunused.not_live⟩ hproper
    (fun _ => Function.update_self _ _ _) (h.placed hptr)

theorem mem_released (hblock : block ∈ live) (h : block.ptr ∉ frees.map Prod.fst) :
    block ∈ released live frees :=
  mem_filter.2 ⟨hblock, decide_eq_true h⟩

theorem dropOld_cons (h : HasOld oldPtr → block.ptr ≠ oldBlock oldPtr) :
    dropOld (block :: live) oldPtr = block :: dropOld live oldPtr := by
  by_cases hold : HasOld oldPtr
  · rw [dropOld, dropOld, if_pos hold, if_pos hold]
    exact filter_cons_of_pos (decide_eq_true (h hold))
  · rw [dropOld, dropOld, if_neg hold, if_neg hold]

theorem oldBlock_data (ptr : BitVec arch.w) :
    oldBlock (ptr + BitVec.ofNat arch.w arch.sizeofSize) = ptr :=
  add_sub_cancel_right _ _

theorem nowhere_ne_zero (arch : HeapArch) : nowhere arch ≠ 0 := by
  intro h
  have hw := arch.minShift_lt
  have hbit : (nowhere arch).getLsbD 0 = true := by
    simp only [nowhere, BitVec.getLsbD_not]
    simpa using by omega
  rw [h] at hbit
  simp at hbit

/-- A state of the heap in order. -/
def Sound (window : HeapWindow arch) (state : HeapState arch) : Prop :=
  state.corrupted = false ∧ HeapInv window state.heap state.live

variable {state : HeapState arch}

variable (h : Sound window state)

include h

theorem sound_alloc (size align offset : BitVec arch.w)
    (hfrees : FreesLive state.live discards.flatten) :
    Sound window (heapStep state (.alloc size align offset discards)) := by
  obtain ⟨hintact, hinv⟩ := h
  obtain ⟨allocation, halloc, hallocates, hproper⟩ := hinv.allocMemblock size align offset hfrees
  simp only [heapStep, halloc]
  refine ⟨hintact, ?_⟩
  by_cases hptr : allocation.ptr = 0
  · simp only [if_pos hptr]
    exact hallocates.inv
  · simp only [if_neg hptr]
    exact hallocates.inv.add (hallocates.unused hptr) (hproper hptr) nofun (hallocates.placed hptr)

theorem sound_free (hfrees : ptr = 0 ∨ FreesLive state.live [(ptr, size)]) :
    Sound window (heapStep state (.free ptr size)) := by
  obtain ⟨hintact, hinv⟩ := h
  have hone : released state.live [(ptr, size)] = state.live.filter fun b => b.ptr ≠ ptr := by
    rw [released_cons, released_nil]
  rcases hfrees with hnull | ⟨-, hlive⟩
  · have hfree : Model.freeMemblock state.heap ptr size = some state.heap := if_pos hnull
    simp only [heapStep, hfree]
    exact ⟨hintact, hinv.sublist filter_sublist⟩
  · obtain ⟨block, hblock, hptr, hsize⟩ := hlive (ptr, size) (mem_singleton_self _)
    obtain ⟨heap', hfrees, hinv'⟩ := hinv.freeMemblock hblock
    have hfree := hfrees.returns
    rw [hptr, hsize] at hfree
    rw [hptr] at hinv'
    simp only [heapStep, hfree, hone]
    exact ⟨hintact, hinv'⟩

/-- **`realloc` allocates the new block before it frees the old one.** -/
theorem sound_realloc (hbehave : UsersBehave state (.realloc oldPtr newSize discards)) :
    Sound window (heapStep state (.realloc oldPtr newSize discards)) := by
  obtain ⟨hintact, hinv⟩ := h
  obtain ⟨hfrees, hold⟩ := hbehave
  by_cases hzero : newSize = 0
  · obtain ⟨heap', hfree, hinv'⟩ := hinv.freeOld fun hhas =>
      have ⟨block, hblock, hauto, hptr, _⟩ := hold hhas
      ⟨block, hblock, hauto, hptr⟩
    simp only [heapStep, Model.realloc, if_pos hzero, hfree, Option.bind_eq_bind, Option.bind_some,
      if_neg (nowhere_ne_zero arch), released_nil]
    exact ⟨hintact, hinv'⟩
  by_cases hfits : newSize + BitVec.ofNat arch.w arch.sizeofSize < newSize
  · simp only [heapStep, Model.realloc, if_neg hzero, if_pos hfits, released_nil]
    exact ⟨hintact, hinv⟩
  obtain ⟨allocation, halloc, hallocates, hproper⟩ :=
    hinv.allocMemblock (newSize + BitVec.ofNat arch.w arch.sizeofSize) 1 0 hfrees
  by_cases hptr : allocation.ptr = 0
  · simp only [heapStep, Model.realloc, if_neg hzero, if_neg hfits, halloc, Option.bind_eq_bind,
      Option.bind_some, if_pos hptr]
    exact ⟨hintact, hallocates.inv⟩
  have hdata := dataPtr_ne_zero hzero hfits (hproper hptr) (hallocates.unused hptr).within
  have hnew := hallocates.newBlock hptr (hproper hptr)
  obtain ⟨rest, hrest⟩ := hallocates.discarded
  have hkept : HasOld oldPtr → ∃ block ∈ released state.live allocation.discarded,
      block.autosized = true ∧ block.ptr = oldBlock oldPtr := by
    intro hhas
    obtain ⟨block, hblock, hauto, hold, hnot⟩ := hold hhas
    refine ⟨block, mem_released hblock fun hmem => hnot ?_, hauto, hold⟩
    rw [hrest, map_append]
    exact mem_append_left _ hmem
  obtain ⟨heap', hfree, hinv'⟩ := hnew.freeOld fun hhas =>
    have ⟨block, hblock, hauto, hold⟩ := hkept hhas
    ⟨block, mem_cons_of_mem _ hblock, hauto, hold⟩
  rw [dropOld_cons fun hhas heq => by
    obtain ⟨block, hblock, -, hold⟩ := hkept hhas
    exact @HeapInv.ptr_ne arch ⟨allocation.ptr, _, 1, 0, true⟩ window allocation.heap _ hallocates.inv
      block (hallocates.unused hptr) (hproper hptr) hblock (hold.trans heq.symm)] at hinv'
  simp only [heapStep, Model.realloc, if_neg hzero, if_neg hfits, halloc, Option.bind_eq_bind,
    Option.bind_some, if_neg hptr, hfree, if_neg hdata, oldBlock_data]
  exact ⟨hintact, hinv'⟩

theorem sound_heapStep {op : HeapOp arch} (hbehave : UsersBehave state op) :
    Sound window (heapStep state op) := by
  cases op with
  | alloc size align offset discards => exact sound_alloc h size align offset hbehave
  | free ptr size => exact sound_free h hbehave
  | realloc oldPtr newSize discards => exact sound_realloc h hbehave

end

/-- A region of less than a minimal block is populated with a block of no size, which is never
found and never freed. -/
structure Exhausted (state : HeapState arch) : Prop where
  intact : state.corrupted = false
  none_live : state.live = []
  none_free : ∃ addr, state.heap.freeBlocks = [⟨addr, 0⟩]

theorem flatten_of_freesLive (h : FreesLive [] frees) : frees = [] :=
  eq_nil_iff_forall_not_mem.2 fun free hfree => by
    obtain ⟨block, hblock, -⟩ := h.2 free hfree
    exact not_mem_nil hblock

section

variable {state : HeapState arch}

theorem Exhausted.allocSearch (h : Exhausted state) (hactual : actual ≠ 0)
    (mask offset : BitVec arch.w) :
    Model.allocSearch actual mask offset state.heap.freeBlocks = none := by
  obtain ⟨addr, hfree⟩ := h.none_free
  have hpos : 0 < actual := (BitVec.pos_iff_ne_zero _).2 hactual
  generalize hpre : (offset - virtToPhys addr) &&& mask = pre
  have hsmall : (0 : BitVec arch.w) < pre ∨ 0 - pre < actual := by
    by_cases hzero : pre = 0
    · exact .inr (by simpa [hzero] using hpos)
    · exact .inl ((BitVec.pos_iff_ne_zero _).2 hzero)
  rw [hfree]
  simp only [Model.allocSearch, hpre]
  rw [if_pos hsmall]
  rfl

theorem Exhausted.allocLoop (h : Exhausted state) (hactual : actual ≠ 0)
    (mask offset : BitVec arch.w) (hfrees : discards.flatten = []) :
    Model.allocLoop actual mask offset state.heap discards =
      some { heap := state.heap, ptr := 0 } := by
  have hnone := h.allocSearch hactual mask offset
  induction discards with
  | nil => exact allocLoop_nil hnone
  | cons frees discards ih =>
    rw [flatten_cons, append_eq_nil_iff] at hfrees
    rw [hfrees.1, allocLoop_cons hnone rfl (ih hfrees.2)]
    rfl

theorem Exhausted.allocMemblock (h : Exhausted state) (size align offset : BitVec arch.w)
    (hfrees : FreesLive state.live discards.flatten) :
    Model.allocMemblock state.heap size align offset discards =
      some { heap := state.heap, ptr := 0 } := by
  rw [h.none_live] at hfrees
  by_cases hactual : actualSize size = 0
  · rw [Model.allocMemblock, if_pos hactual]
  · rw [Model.allocMemblock, if_neg hactual, h.allocLoop hactual _ _ (flatten_of_freesLive hfrees)]

theorem Exhausted.heapStep (h : Exhausted state) {op : HeapOp arch} (hbehave : UsersBehave state op) :
    Exhausted (Interface.heapStep state op) := by
  cases op with
  | alloc size align offset discards =>
    simp only [Interface.heapStep, h.allocMemblock size align offset hbehave, released_nil]
    exact h
  | free ptr size =>
    rcases hbehave with hnull | hlive
    · have hfree : Model.freeMemblock state.heap ptr size = some state.heap := if_pos hnull
      simp only [Interface.heapStep, hfree, h.none_live]
      exact ⟨h.intact, rfl, h.none_free⟩
    · rw [h.none_live] at hlive
      exact absurd (flatten_of_freesLive hlive) (cons_ne_nil _ _)
  | realloc oldPtr newSize discards =>
    obtain ⟨hfrees, hold⟩ := hbehave
    have hnot : ¬ HasOld oldPtr := fun hhas => by
      obtain ⟨block, hblock, -⟩ := hold hhas
      rw [h.none_live] at hblock
      exact not_mem_nil hblock
    by_cases hzero : newSize = 0
    · simp only [Interface.heapStep, Model.realloc, if_pos hzero, freeOld_none hnot,
        Option.bind_eq_bind, Option.bind_some, if_neg (nowhere_ne_zero arch), released_nil,
        dropOld, if_neg hnot]
      exact h
    by_cases hfits : newSize + BitVec.ofNat arch.w arch.sizeofSize < newSize
    · simp only [Interface.heapStep, Model.realloc, if_neg hzero, if_pos hfits, released_nil]
      exact h
    · simp only [Interface.heapStep, Model.realloc, if_neg hzero, if_neg hfits,
        h.allocMemblock _ 1 0 hfrees, Option.bind_eq_bind, Option.bind_some, if_true, released_nil]
      exact h

end

variable (len : BitVec arch.w)

def populatedLen : BitVec arch.w := len &&& ~~~(minMemblockSize arch - 1)

theorem toNat_populatedLen :
    (populatedLen len).toNat = len.toNat / 2 ^ arch.minShift * 2 ^ arch.minShift :=
  toNat_and_not_low len arch.minShift_lt

theorem populatedLen_le : (populatedLen len).toNat ≤ len.toNat := by
  rw [toNat_populatedLen]
  exact Nat.div_mul_le_self _ _

theorem actualSize_populatedLen : actualSize (populatedLen len) = populatedLen len := by
  have hs := arch.minShift_lt
  have hpos : 0 < 2 ^ arch.minShift := Nat.two_pow_pos _
  have hdvd : 2 ^ arch.minShift ∣ 2 ^ arch.w := Nat.pow_dvd_pow 2 hs.le
  have hround := toNat_populatedLen len
  have hlt := (populatedLen len).isLt
  rw [hround] at hlt
  -- there is room for one more minimal block below the end of the address space
  have hroom : (len.toNat / 2 ^ arch.minShift + 1) * 2 ^ arch.minShift ≤ 2 ^ arch.w := by
    obtain ⟨n, hn⟩ := hdvd
    rw [hn, mul_comm (2 ^ arch.minShift) n] at hlt ⊢
    exact Nat.mul_le_mul_right _ (Nat.lt_of_mul_lt_mul_right hlt)
  rw [add_mul] at hroom
  apply BitVec.eq_of_toNat_eq
  rw [toNat_actualSize, hround, Nat.mod_eq_of_lt (by omega), Nat.add_sub_assoc hpos,
    add_comm, Nat.add_mul_div_right _ _ hpos, Nat.div_eq_of_lt (by omega), zero_add]

theorem populated_null (h : region.start = 0) :
    populated region =
      { heap := ({ usedmem := 0 + populatedLen region.len } : Heap arch) } := by
  have hfree : Model.freeMemblock ({} : Heap arch) region.start (populatedLen region.len) =
      some {} := if_pos h
  unfold populatedLen at hfree
  simp only [populated, mpopulate, hfree, Option.map_some, populatedLen]

theorem populated_free (h : region.start ≠ 0) :
    (populated region).corrupted = false ∧ (populated region).live = [] ∧
      (populated region).heap.freeBlocks = [⟨region.start, populatedLen region.len⟩] := by
  have hfree : Model.freeMemblock ({} : Heap arch) region.start (populatedLen region.len) =
      some { freeBlocks := [⟨region.start, populatedLen region.len⟩]
             freemem := 0 + populatedLen region.len
             usedmem := 0 - populatedLen region.len } := by
    simp only [Model.freeMemblock, if_neg h, actualSize_populatedLen, insertFree, Option.map_some]
  unfold populatedLen at hfree ⊢
  simp only [populated, mpopulate, hfree, Option.map_some, and_self]

/-- Either a window of the region is managed, or nothing is. -/
def InRegion (region : HeapRegion arch) (state : HeapState arch) : Prop :=
  (∃ window : HeapWindow arch, window.extent.Within region.extent ∧ Sound window state) ∨
    Exhausted state

variable {state : HeapState arch}

theorem inRegion_heapStep (h : InRegion region state) {op : HeapOp arch}
    (hbehave : UsersBehave state op) : InRegion region (heapStep state op) := by
  rcases h with ⟨window, hwithin, hsound⟩ | hexhausted
  · exact .inl ⟨window, hwithin, sound_heapStep hsound hbehave⟩
  · exact .inr (hexhausted.heapStep hbehave)

variable {window : HeapWindow arch}

theorem sound_of_free
    (hintact : state.corrupted = false) (hlive : state.live = [])
    (hfree : Separated (freeExtents state.heap))
    (hinside : covered (freeExtents state.heap) ⊆ window.extent.toSet) : Sound window state := by
  refine ⟨hintact, ?_⟩
  rw [hlive]
  have hnone {p : LiveBlock arch → Prop} : ∀ block ∈ [], p block := forall_mem_nil p
  exact ⟨hfree, hinside, hnone, hnone, .nil, hnone, hnone, hnone⟩

theorem inRegion_populated (region : HeapRegion arch)
    (hhalf : region.len.toNat ≤ 2 ^ (arch.w - 1)) : InRegion region (populated region) := by
  by_cases hnull : region.start = 0
  · rw [populated_null hnull]
    refine .inl ⟨⟨1, 0, by norm_num, Nat.zero_le _, Nat.zero_le _⟩, ⟨?_, Nat.zero_le _⟩, ?_⟩
    · simp [HeapRegion.extent, hnull]
    · exact sound_of_free rfl rfl separated_nil ((subset_of_eq covered_nil).trans (Set.empty_subset _))
  obtain ⟨hintact, hlive, hfree⟩ := populated_free hnull
  by_cases hzero : populatedLen region.len = 0
  · exact .inr ⟨hintact, hlive, region.start, by rw [hfree, hzero]⟩
  have hle := populatedLen_le region.len
  have hfits := region.fits
  have hpos : 0 < region.start.toNat := (BitVec.pos_iff_ne_zero _).2 hnull
  have hlen : 0 < (populatedLen region.len).toNat := (BitVec.pos_iff_ne_zero _).2 hzero
  refine .inl ⟨⟨region.start.toNat, region.start.toNat + (populatedLen region.len).toNat, hpos,
    by omega, by omega⟩, ⟨le_refl _, ?_⟩, ?_⟩
  · simp only [HeapRegion.extent, HeapWindow.extent]
    omega
  · refine sound_of_free hintact hlive ?_ ?_
    · rw [freeExtents, hfree]
      exact separated_cons.2 ⟨Nat.lt_add_of_pos_right hlen, forall_mem_nil _, separated_nil⟩
    · rw [freeExtents, hfree, map_singleton, covered_cons, covered_nil, Set.union_empty]
      exact subset_refl _

/-- **A block that meets the mask is aligned.** -/
theorem modEq_of_placed {align phys : BitVec arch.w} (halign : IsAlignment align)
    (h : (offset - phys) &&& alignMask align = 0) :
    phys.toNat ≡ offset.toNat [MOD align.toNat] := by
  have hlow : (offset - phys) &&& (align - 1) = 0 := and_eq_zero_of_or h
  rcases halign with hzero | ⟨k, hk⟩
  · -- all bits are in the mask: the block is at the offset itself
    have hones : (0 : BitVec arch.w) - 1 = BitVec.allOnes arch.w := by
      exact BitVec.neg_one_eq_allOnes
    rw [hzero, hones, BitVec.and_allOnes] at hlow
    rw [sub_eq_zero.1 hlow]
  · have hlt : k < arch.w := by
      have hlt := align.isLt
      rw [hk] at hlt
      exact (Nat.pow_lt_pow_iff_right (by norm_num)).1 hlt
    have halign : align = BitVec.twoPow arch.w k :=
      BitVec.eq_of_toNat_eq (by rw [hk, BitVec.toNat_twoPow_of_lt hlt])
    have hmod : (offset - phys).toNat % 2 ^ k = 0 := by
      rw [← toNat_and_low _ hlt, ← halign, hlow]
      rfl
    have hdvd : 2 ^ k ∣ 2 ^ arch.w := Nat.pow_dvd_pow 2 hlt.le
    -- addresses are reduced modulo a multiple of the alignment
    have hsum : phys.toNat + (offset - phys).toNat ≡ offset.toNat [MOD 2 ^ arch.w] := by
      have hadd : phys + (offset - phys) = offset := add_sub_cancel _ _
      have htoNat := congrArg BitVec.toNat hadd
      rw [← htoNat]
      exact (Nat.mod_modEq _ _).symm
    rw [hk]
    calc phys.toNat = phys.toNat + 0 := rfl
      _ ≡ phys.toNat + (offset - phys).toNat [MOD 2 ^ k] := Nat.ModEq.add_left _ hmod.symm
      _ ≡ offset.toNat [MOD 2 ^ k] := hsum.of_dvd hdvd

theorem Sound.heapInOrder
    (h : Sound window state) (hwithin : window.extent.Within region.extent) :
    HeapInOrder region state := by
  obtain ⟨hintact, hinv⟩ := h
  refine ⟨hintact, hinv.live_disjoint, fun block hblock => ?_,
    fun block hblock => le_actualSize (hinv.live_proper block hblock),
    fun block hblock halign => modEq_of_placed halign (hinv.placed block hblock),
    pairwise_map.1 hinv.free.apart, fun a ha b hb => ?_⟩
  · obtain ⟨hlo, hhi⟩ := hinv.live_inside block hblock
    exact ⟨hwithin.1.trans hlo, hhi.trans hwithin.2⟩
  · exact ((hinv.apart b hb).mono_right (toSet_subset_covered (mem_map_of_mem ha))).symm

theorem Exhausted.heapInOrder (h : Exhausted state)
    (region : HeapRegion arch) : HeapInOrder region state := by
  obtain ⟨hintact, hlive, addr, hfree⟩ := h
  constructor
  · exact hintact
  all_goals simp [hlive, hfree]

/-- **The heap stays in order.**  In every run whose users free only blocks in use, from a region of
at most half the address space, the blocks in use are disjoint, in the region, as large and as
aligned as asked for, and the free list ascends without adjacent blocks or blocks in use.
[core/malloc.c:205-235,279-572] -/
theorem heap_in_order (region : HeapRegion arch) (hhalf : region.len.toNat ≤ 2 ^ (arch.w - 1))
    (ops : List (HeapOp arch)) (hbehave : Meets heapStep UsersBehave (populated region) ops) :
    HeapInOrder region (run heapStep (populated region) ops) := by
  have hstep : ∀ state op, InRegion region state → UsersBehave state op →
      InRegion region (heapStep state op) := fun _ _ hinv hop => inRegion_heapStep hinv hop
  have hregion := run_invariant hstep (inRegion_populated region hhalf) hbehave
  rcases hregion with ⟨window, hwithin, hsound⟩ | hexhausted
  · exact hsound.heapInOrder hwithin
  · exact hexhausted.heapInOrder region

end

def i386 : HeapArch where
  w := 32
  minShift := 4
  sizeofSize := 4
  virtOffset := 0
  minShift_lt := by norm_num

def smallRegion : HeapRegion i386 where
  start := 0x100000#32
  len := 0x1000#32
  fits := by decide

/-- A region of three quarters of the address space. -/
def largeRegion : HeapRegion i386 where
  start := 0x10000000#32
  len := 0xc0000000#32
  fits := by decide

/-- Two blocks are allocated; the second is made larger, and both are freed. -/
def orderlyOps : List (HeapOp i386) :=
  [.alloc 100#32 64#32 8#32 [], .realloc 0#32 40#32 [], .realloc 0x100084#32 200#32 [],
    .free 0x100008#32 100#32]

theorem heap_in_order_orderlyOps :
    HeapInOrder smallRegion (run heapStep (populated smallRegion) orderlyOps) :=
  heap_in_order smallRegion (by decide) orderlyOps (by decide +kernel)

/-- An alignment that is not one. -/
def oddAlignOps : List (HeapOp i386) := [.alloc 32#32 3#32 0#32 []]

/-- The first block is freed while the free list begins more than half the address space behind
it. -/
def farFreeOps : List (HeapOp i386) :=
  [.alloc 32#32 1#32 0#32 [], .alloc 0xb0000000#32 1#32 0#32 [], .free 0x10000000#32 32#32]

/-- **What is not so for every alignment and every region.**  A block for which an alignment of
three was asked is not at a multiple of three; and in a region of more than half the address
space a block is put behind one with a higher address.
[core/malloc.c:311,461-486] -/
theorem heap_out_of_order :
    (Meets heapStep UsersBehave (populated smallRegion) oddAlignOps ∧
      ∃ block ∈ (run heapStep (populated smallRegion) oddAlignOps).live,
        ¬ (virtToPhys block.ptr).toNat ≡ block.offset.toNat [MOD block.align.toNat]) ∧
    Meets heapStep UsersBehave (populated largeRegion) farFreeOps ∧
      ¬ HeapInOrder largeRegion (run heapStep (populated largeRegion) farFreeOps) := by
  refine ⟨⟨by decide +kernel, by decide +kernel⟩, by decide +kernel, fun horder => ?_⟩
  have hfree := horder.free_ascending
  revert hfree
  decide +kernel

end Ipxe.Analysis
