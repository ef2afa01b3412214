import Ipxe.Analysis.HeapBlocks

/-!
# The counters of the heap

The counter of free memory follows the free list as long as no allocation leaves a part of a free
block that is too small to be a block.  Free and used memory together are what was populated.
-/

namespace Ipxe.Analysis

open Library Model Interface
open BitVec hiding not_or
open List hiding Disjoint

section

variable {arch : HeapArch} {actual mask offset : BitVec arch.w} {blocks : List (MemoryBlock arch)}
  {size ptr : BitVec arch.w} {discards : List (List (BitVec arch.w × BitVec arch.w))}
  {allocation : Allocation arch} {oldPtr : BitVec arch.w}

def listed (heap : Heap arch) : ℕ := (heap.freeBlocks.map fun block => block.size.toNat).sum

/-- A heap with what has been populated so far. -/
structure HeapPool (arch : HeapArch) where
  state : HeapState arch
  total : BitVec arch.w := 0

inductive PoolOp (arch : HeapArch) where
  | populate (region : HeapRegion arch)
  | use (op : HeapOp arch)

variable (region : HeapRegion arch)

/-- What is going to be populated counts as in use until then. -/
def awaitedBlock : LiveBlock arch :=
  ⟨region.start, populatedLen region.len, 1, virtToPhys region.start, false⟩

def unpopulated (regions : List (HeapRegion arch)) : HeapPool arch where
  state := { live := regions.map awaitedBlock }

def poolStep (pool : HeapPool arch) : PoolOp arch → HeapPool arch
  | .populate region =>
    match mpopulate pool.state.heap region.start region.len with
    | none => { pool with state := { pool.state with corrupted := true } }
    | some heap =>
      { state := { pool.state with
          heap := heap
          live := released pool.state.live [(region.start, populatedLen region.len)] }
        total := pool.total + populatedLen region.len }
  | .use op => { pool with state := heapStep pool.state op }

/-- The populated parts of the regions are apart, not empty, and close enough to each other. -/
structure RegionsApart (window : HeapWindow arch) (regions : List (HeapRegion arch)) : Prop where
  proper : ∀ region ∈ regions, populatedLen region.len ≠ 0
  inside : ∀ region ∈ regions, region.extent.Within window.extent
  apart : regions.Pairwise fun a b => Disjoint a.extent.toSet b.extent.toSet

/-- A part of a block is nothing, or enough for a block. -/
def WholePart (size : BitVec arch.w) : Prop := size = 0 ∨ minMemblockSize arch ≤ size

/-- The first block with enough space is split into whole parts. -/
def SplitsWhole (actual mask offset : BitVec arch.w) : List (MemoryBlock arch) → Prop
  | [] => True
  | block :: blocks =>
    let preSize := (offset - virtToPhys block.addr) &&& mask
    if block.size < preSize ∨ block.size - preSize < actual then SplitsWhole actual mask offset blocks
    else WholePart preSize ∧ WholePart (block.size - preSize - actual)

theorem splitsWhole_of_fits {block : MemoryBlock arch}
    (hfits : ¬(block.size < (offset - virtToPhys block.addr) &&& mask ∨
      block.size - ((offset - virtToPhys block.addr) &&& mask) < actual))
    (hparts : WholePart ((offset - virtToPhys block.addr) &&& mask) ∧
      WholePart (block.size - ((offset - virtToPhys block.addr) &&& mask) - actual)) :
    SplitsWhole actual mask offset (block :: blocks) := by
  unfold SplitsWhole
  rw [if_neg hfits]
  exact hparts

/-- The same, after what is discarded until there is such a block. -/
def LeaksNothing (actual mask offset : BitVec arch.w) (heap : Heap arch) :
    List (List (BitVec arch.w × BitVec arch.w)) → Prop
  | [] => SplitsWhole actual mask offset heap.freeBlocks
  | frees :: discards =>
    SplitsWhole actual mask offset heap.freeBlocks ∧
      (allocSearch actual mask offset heap.freeBlocks = none →
        ∀ heap', discardCache heap frees = some heap' → LeaksNothing actual mask offset heap' discards)

/-- The callers behave, each region is populated once, and no allocation leaks anything. -/
def PoolOrderly (pool : HeapPool arch) : PoolOp arch → Prop
  | .populate region => FreesLive pool.state.live [(region.start, populatedLen region.len)]
  | .use op => UsersBehave pool.state op ∧
    match op with
    | .alloc size align offset discards =>
      LeaksNothing (actualSize size) (alignMask align) offset pool.state.heap discards
    | .free _ _ => True
    | .realloc _ newSize discards =>
      LeaksNothing (actualSize (newSize + BitVec.ofNat arch.w arch.sizeofSize)) (alignMask 1) 0
        pool.state.heap discards

/-! ## The counter and the list -/

/-- The counter of free memory is the size of the free list. -/
def Accounts (heap : Heap arch) : Prop := heap.freemem.toNat = listed heap

section

variable {window : HeapWindow arch} {heap heap' : Heap arch} {live : List (LiveBlock arch)}

theorem ncard_toSet (i : Interval) : i.toSet.ncard = i.hi - i.lo := by
  rw [Interval.toSet, ← Finset.coe_Ico, Set.ncard_coe_finset, Nat.card_Ico]

/-- Separated intervals have as many numbers as their lengths say. -/
theorem ncard_covered {l : List Interval} (h : Separated l) :
    (covered l).ncard = (l.map fun i => i.hi - i.lo).sum ∧ (covered l).Finite := by
  induction l with
  | nil => exact ⟨by rw [covered_nil, Set.ncard_empty, map_nil, sum_nil], by simp⟩
  | cons i l ih =>
    obtain ⟨hi, hbehind, hl⟩ := separated_cons.1 h
    obtain ⟨hcard, hfinite⟩ := ih hl
    have hdisj : Disjoint i.toSet (covered l) :=
      disjoint_covered_of_lt fun j hj => (hbehind j hj).le
    rw [covered_cons, map_cons,
      Set.ncard_union_eq hdisj (Set.finite_Ico _ _) hfinite, ncard_toSet, hcard]
    exact ⟨rfl, (Set.finite_Ico _ _).union hfinite⟩

theorem listed_eq_ncard (h : Separated (freeExtents heap)) :
    listed heap = (covered (freeExtents heap)).ncard := by
  rw [(ncard_covered h).1, freeExtents, map_map, listed]
  congr 1
  apply map_congr_left
  intro block _
  exact (Nat.add_sub_cancel_left _ _).symm

theorem HeapInv.listed_lt (hinv : HeapInv window heap live) : listed heap < 2 ^ arch.w := by
  have hle : (covered (freeExtents heap)).ncard ≤ window.hi - window.lo := by
    have hcard : window.extent.toSet.ncard = window.hi - window.lo := ncard_toSet _
    rw [← hcard]
    exact Set.ncard_le_ncard hinv.free_inside (Set.finite_Ico _ _)
  have hpos := window.pos
  have htop := window.le
  have hword : 0 < 2 ^ arch.w := Nat.two_pow_pos _
  rw [listed_eq_ncard hinv.free]
  omega

/-- **A block in use that is freed** adds its size to both. -/
theorem Accounts.freeMemblock (h : Accounts heap) (hinv : HeapInv window heap live)
    {block : LiveBlock arch} (hlive : block ∈ live)
    (hfree : Model.freeMemblock heap block.ptr block.size = some heap') : Accounts heap' := by
  obtain ⟨heap₁, hfrees, hinv'⟩ := hinv.freeMemblock hlive
  cases hfrees.returns.symm.trans hfree
  have hone : block.extent.toSet.ncard = (actualSize block.size).toNat :=
    (ncard_toSet _).trans (Nat.add_sub_cancel_left _ _)
  have hsum := listed_eq_ncard hinv'.free
  rw [hfrees.covered, Set.ncard_union_eq (hinv.apart block hlive).symm (ncard_covered hinv.free).2
    (Set.finite_Ico _ _), hone, ← listed_eq_ncard hinv.free] at hsum
  have hlt := hinv'.listed_lt
  unfold Accounts at h ⊢
  rw [hsum] at hlt ⊢
  rw [hfrees.freemem, toNat_add, h, Nat.mod_eq_of_lt hlt]

theorem Accounts.discardCache (h : Accounts heap) (hinv : HeapInv window heap live)
    {frees : List (BitVec arch.w × BitVec arch.w)} (hfrees : FreesLive live frees)
    (hdiscard : Model.discardCache heap frees = some heap') : Accounts heap' := by
  induction frees generalizing heap live with
  | nil =>
    cases hdiscard
    exact h
  | cons free frees ih =>
    obtain ⟨block, hblock, hptr, hsize⟩ := hfrees.2 free mem_cons_self
    obtain ⟨heap₁, hfree, hinv₁⟩ := hinv.freeMemblock hblock
    have haccounts := h.freeMemblock hinv hblock hfree.returns
    rw [hptr] at hinv₁
    rw [Model.discardCache, foldlM_cons, ← hptr, ← hsize, hfree.returns] at hdiscard
    exact ih haccounts hinv₁ (freesLive_tail hfrees) hdiscard

theorem listed_wholePart {addr : BitVec arch.w} (h : WholePart size) :
    (((if size < minMemblockSize arch then [] else [(⟨addr, size⟩ : MemoryBlock arch)]).map
      fun block => block.size.toNat).sum) = size.toNat := by
  split
  next hsmall =>
    obtain rfl | hle := h
    · rfl
    · exact absurd hsmall (BitVec.not_lt.2 hle)
  next => rw [map_singleton, sum_singleton]

/-- **An allocation without leaks** takes its size off the free list. -/
theorem listed_allocSearch {blocks' : List (MemoryBlock arch)}
    (hwhole : SplitsWhole actual mask offset blocks)
    (h : allocSearch actual mask offset blocks = some (ptr, blocks')) :
    (blocks.map fun block => block.size.toNat).sum =
      (blocks'.map fun block => block.size.toNat).sum + actual.toNat := by
  induction blocks generalizing blocks' with
  | nil => cases h
  | cons block blocks ih =>
    unfold allocSearch at h
    unfold SplitsWhole at hwhole
    dsimp only at h hwhole
    split at h
    next hskip =>
      rw [if_pos hskip] at hwhole
      obtain ⟨⟨ptr', rest⟩, hfound, heq⟩ := Option.map_eq_some_iff.1 h
      cases heq
      rw [map_cons, sum_cons, ih hwhole hfound, map_cons, sum_cons, add_assoc]
    next hfits =>
      rw [if_neg hfits] at hwhole
      rw [not_or, BitVec.not_lt, BitVec.not_lt] at hfits
      cases h
      have hrest := toNat_sub_of_le hfits.1
      have hpost := toNat_sub_of_le hfits.2
      rw [le_def] at hfits
      have hle := le_def.1 hfits.2
      simp only [map_cons, sum_cons, map_append, sum_append,
        listed_wholePart hwhole.1, listed_wholePart hwhole.2]
      omega

theorem LeaksNothing.splits {heap : Heap arch} (h : LeaksNothing actual mask offset heap discards) :
    SplitsWhole actual mask offset heap.freeBlocks := by
  cases discards with
  | nil => exact h
  | cons frees discards => exact h.1

section

variable (h : Accounts heap)

include h

theorem Accounts.found (hwhole : SplitsWhole actual mask offset heap.freeBlocks)
    (hsearch : allocSearch actual mask offset heap.freeBlocks = some (ptr, blocks)) :
    Accounts (foundHeap heap actual blocks) := by
  have hsum := listed_allocSearch hwhole hsearch
  have hle : actual ≤ heap.freemem := by
    rw [le_def, h, listed, hsum]
    exact Nat.le_add_left _ _
  unfold Accounts
  rw [foundHeap, toNat_sub_of_le hle, h, listed, hsum, Nat.add_sub_cancel]
  rfl

theorem Accounts.allocLoop (hinv : HeapInv window heap live)
    (hfrees : FreesLive live discards.flatten)
    (hleaks : LeaksNothing actual mask offset heap discards)
    (hloop : Model.allocLoop actual mask offset heap discards = some allocation) :
    Accounts allocation.heap := by
  fun_induction Model.allocLoop actual mask offset heap discards generalizing live allocation with
  | case1 heap discards ptr blocks hsearch =>
    cases hloop
    exact h.found hleaks.splits hsearch
  | case2 heap hsearch =>
    cases hloop
    exact h
  | case3 heap frees discards hsearch ih =>
    obtain ⟨hfirst, hrest⟩ := freesLive_append hfrees
    obtain ⟨heap₁, hdiscard₁, -, hinv₁⟩ := hinv.discardCache hfirst
    obtain ⟨heap₂, hdiscard, hloop⟩ := Option.bind_eq_some_iff.1 hloop
    obtain ⟨allocation₁, hloop₁, heq⟩ := Option.bind_eq_some_iff.1 hloop
    cases hdiscard₁.symm.trans hdiscard
    have hnext := ih heap₁ (h.discardCache hinv hfirst hdiscard) hinv₁ hrest
      (hleaks.2 hsearch heap₁ hdiscard) hloop₁
    cases heq
    exact hnext

theorem Accounts.allocMemblock (hinv : HeapInv window heap live) {align : BitVec arch.w}
    (hfrees : FreesLive live discards.flatten)
    (hleaks : LeaksNothing (actualSize size) (alignMask align) offset heap discards)
    (halloc : Model.allocMemblock heap size align offset discards = some allocation) :
    Accounts allocation.heap := by
  unfold Model.allocMemblock at halloc
  dsimp only at halloc
  split at halloc
  · cases halloc
    exact h
  · exact h.allocLoop hinv hfrees hleaks halloc

theorem Accounts.freeOld (hinv : HeapInv window heap live)
    (hold : HasOld oldPtr → ∃ block ∈ live, block.autosized = true ∧ block.ptr = oldBlock oldPtr)
    (hfree : Model.freeOld heap oldPtr = some heap') : Accounts heap' := by
  by_cases hhas : HasOld oldPtr
  · obtain ⟨block, hblock, hauto, hptr⟩ := hold hhas
    rw [freeOld_old hhas, ← hptr, hinv.sizes block hblock hauto] at hfree
    exact h.freeMemblock hinv hblock hfree
  · rw [freeOld_none hhas] at hfree
    cases hfree
    exact h

/-- `realloc` allocates, and then frees what is still in use. -/
theorem Accounts.realloc (hinv : HeapInv window heap live) {newSize : BitVec arch.w}
    (hfrees : FreesLive live discards.flatten)
    (hold : HasOld oldPtr → ∃ block ∈ live, block.autosized = true ∧ block.ptr = oldBlock oldPtr ∧
      block.ptr ∉ discards.flatten.map Prod.fst)
    (hleaks : LeaksNothing (actualSize (newSize + BitVec.ofNat arch.w arch.sizeofSize)) (alignMask 1) 0
      heap discards)
    (hrealloc : Model.realloc heap oldPtr newSize discards = some allocation) :
    Accounts allocation.heap := by
  unfold Model.realloc at hrealloc
  split at hrealloc
  · obtain ⟨heap₁, hfree, heq⟩ := Option.bind_eq_some_iff.1 hrealloc
    cases heq
    apply h.freeOld hinv _ hfree
    intro hhas
    obtain ⟨block, hblock, hauto, hptr, -⟩ := hold hhas
    exact ⟨block, hblock, hauto, hptr⟩
  dsimp only at hrealloc
  split at hrealloc
  · cases hrealloc
    exact h
  obtain ⟨found, halloc, hrest⟩ := Option.bind_eq_some_iff.1 hrealloc
  have haccounts := h.allocMemblock hinv hfrees hleaks halloc
  obtain ⟨found', halloc', hallocates, hproper⟩ :=
    hinv.allocMemblock (newSize + BitVec.ofNat arch.w arch.sizeofSize) 1 0 hfrees
  cases halloc'.symm.trans halloc
  split at hrest
  · cases hrest
    exact haccounts
  next hptr =>
    obtain ⟨heap₁, hfree, heq⟩ := Option.bind_eq_some_iff.1 hrest
    cases heq
    obtain ⟨rest, hdiscarded⟩ := hallocates.discarded
    have haccounts' : ∀ sizes, Accounts { found.heap with sizes := sizes } := fun _ => haccounts
    apply (haccounts' _).freeOld (hallocates.newBlock hptr (hproper hptr)) _ hfree
    intro hhas
    obtain ⟨block, hblock, hauto, hptr', hnot⟩ := hold hhas
    refine ⟨block, mem_cons_of_mem _ (mem_released hblock fun hmem => hnot ?_), hauto, hptr'⟩
    rw [hdiscarded, map_append]
    exact mem_append_left _ hmem

end

/-- Free and used memory together. -/
def balance (heap : Heap arch) : BitVec arch.w := heap.freemem + heap.usedmem

theorem balance_freeMemblock (h : Model.freeMemblock heap ptr size = some heap') :
    balance heap' = balance heap := by
  unfold Model.freeMemblock at h
  split at h
  · cases h
    rfl
  · obtain ⟨blocks, -, heq⟩ := Option.map_eq_some_iff.1 h
    cases heq
    exact add_add_sub_cancel _ _ _

theorem balance_discardCache {frees : List (BitVec arch.w × BitVec arch.w)}
    (h : Model.discardCache heap frees = some heap') : balance heap' = balance heap := by
  induction frees generalizing heap with
  | nil =>
    cases h
    rfl
  | cons free frees ih =>
    obtain ⟨heap₁, hfree, hrest⟩ := Option.bind_eq_some_iff.1 h
    rw [ih hrest, balance_freeMemblock hfree]

theorem balance_allocLoop (h : Model.allocLoop actual mask offset heap discards = some allocation) :
    balance allocation.heap = balance heap := by
  fun_induction Model.allocLoop actual mask offset heap discards generalizing allocation with
  | case1 heap discards ptr blocks hsearch =>
    cases h
    exact sub_add_add_cancel _ _ _
  | case2 heap hsearch =>
    cases h
    rfl
  | case3 heap frees discards hsearch ih =>
    obtain ⟨heap₁, hdiscard, h⟩ := Option.bind_eq_some_iff.1 h
    obtain ⟨allocation₁, hloop, heq⟩ := Option.bind_eq_some_iff.1 h
    have hnext := ih heap₁ hloop
    cases heq
    exact hnext.trans (balance_discardCache hdiscard)

theorem balance_allocMemblock {align : BitVec arch.w}
    (h : Model.allocMemblock heap size align offset discards = some allocation) :
    balance allocation.heap = balance heap := by
  unfold Model.allocMemblock at h
  dsimp only at h
  split at h
  · cases h
    rfl
  · exact balance_allocLoop h

theorem balance_freeOld (h : Model.freeOld heap oldPtr = some heap') :
    balance heap' = balance heap := by
  unfold Model.freeOld at h
  split at h
  · exact balance_freeMemblock h
  · cases h
    rfl

theorem balance_realloc {newSize : BitVec arch.w}
    (h : Model.realloc heap oldPtr newSize discards = some allocation) :
    balance allocation.heap = balance heap := by
  unfold Model.realloc at h
  split at h
  · obtain ⟨heap₁, hfree, heq⟩ := Option.bind_eq_some_iff.1 h
    cases heq
    exact balance_freeOld hfree
  dsimp only at h
  split at h
  · cases h
    rfl
  obtain ⟨found, halloc, hrest⟩ := Option.bind_eq_some_iff.1 h
  split at hrest
  · cases hrest
    exact balance_allocMemblock halloc
  · obtain ⟨heap₁, hfree, heq⟩ := Option.bind_eq_some_iff.1 hrest
    cases heq
    exact (balance_freeOld hfree).trans (balance_allocMemblock halloc)

end

/-! ## Runs -/

/-- A step leaves the counters at what has been populated. -/
theorem balance_poolStep {pool : HeapPool arch} (h : balance pool.state.heap = pool.total)
    (op : PoolOp arch) : balance (poolStep pool op).state.heap = (poolStep pool op).total := by
  cases op with
  | populate region =>
    unfold poolStep
    dsimp only
    split
    · exact h
    next heap hpopulate =>
      obtain ⟨freed, hfree, heq⟩ := Option.map_eq_some_iff.1 hpopulate
      cases heq
      unfold balance
      rw [← add_assoc]
      exact congrArg (· + populatedLen region.len) ((balance_freeMemblock hfree).trans h)
  | use op =>
    unfold poolStep heapStep
    cases op with
    | alloc size align offset discards =>
      dsimp only
      split
      · exact h
      next allocation halloc => exact (balance_allocMemblock halloc).trans h
    | free ptr size =>
      dsimp only
      split
      · exact h
      next heap hfree => exact (balance_freeMemblock hfree).trans h
    | realloc oldPtr newSize discards =>
      dsimp only
      split
      · exact h
      next allocation hrealloc => exact (balance_realloc hrealloc).trans h

variable {window : HeapWindow arch}

/-- An orderly step keeps the heap in order and the counter at the size of the list. -/
theorem accounts_poolStep {pool : HeapPool arch} {op : PoolOp arch}
    (h : Sound window pool.state ∧ Accounts pool.state.heap) (horderly : PoolOrderly pool op) :
    Sound window (poolStep pool op).state ∧ Accounts (poolStep pool op).state.heap := by
  obtain ⟨hsound, haccounts⟩ := h
  have hinv := hsound.2
  cases op with
  | populate region =>
    obtain ⟨block, hblock, hptr, hsize⟩ := horderly.2 _ (mem_singleton_self _)
    obtain ⟨heap, hfrees, hinv'⟩ := hinv.freeMemblock hblock
    have hfree := hfrees.returns
    have hafter := haccounts.freeMemblock hinv hblock hfree
    have hone : released pool.state.live [(region.start, populatedLen region.len)] =
        pool.state.live.filter fun other => other.ptr ≠ block.ptr := by
      rw [released_cons, released_nil, hptr]
    rw [hptr, hsize] at hfree
    have hpopulate : mpopulate pool.state.heap region.start region.len =
        some { heap with usedmem := heap.usedmem + populatedLen region.len } := by
      unfold mpopulate
      dsimp only
      rw [show region.len &&& ~~~(minMemblockSize arch - 1) = populatedLen region.len from rfl, hfree]
      rfl
    unfold poolStep
    dsimp only
    rw [hpopulate]
    refine ⟨⟨hsound.1, ?_⟩, hafter⟩
    rw [hone]
    exact { hinv' with }
  | use op =>
    refine ⟨sound_heapStep hsound horderly.1, ?_⟩
    obtain ⟨hbehave, hleaks⟩ := horderly
    unfold poolStep heapStep
    cases op with
    | alloc size align offset discards =>
      dsimp only
      split
      · exact haccounts
      next allocation halloc => exact haccounts.allocMemblock hinv hbehave hleaks halloc
    | free ptr size =>
      dsimp only
      split
      · exact haccounts
      next heap hfree =>
        rcases hbehave with hnull | ⟨-, hlive⟩
        · rw [Model.freeMemblock, if_pos hnull] at hfree
          cases hfree
          exact haccounts
        · obtain ⟨block, hblock, hptr, hsize⟩ := hlive _ (mem_singleton_self _)
          dsimp only at hptr hsize
          rw [← hptr, ← hsize] at hfree
          exact haccounts.freeMemblock hinv hblock hfree
    | realloc oldPtr newSize discards =>
      dsimp only
      split
      · exact haccounts
      next allocation hrealloc =>
        exact haccounts.realloc hinv hbehave.1 hbehave.2 hleaks hrealloc

theorem awaitedBlock_within : (awaitedBlock region).extent.Within region.extent := by
  rw [awaitedBlock, LiveBlock.extent, actualSize_populatedLen]
  exact ⟨le_refl _, Nat.add_le_add_left (populatedLen_le region.len) _⟩

theorem sound_unpopulated {regions : List (HeapRegion arch)}
    (h : RegionsApart window regions) : Sound window (unpopulated regions).state := by
  have hlive : ∀ p : LiveBlock arch → Prop, (∀ region ∈ regions, p (awaitedBlock region)) →
      ∀ block ∈ (unpopulated regions).state.live, p block := by
    intro p hp block hblock
    obtain ⟨region, hregion, rfl⟩ := mem_map.1 hblock
    exact hp region hregion
  have hnone : covered (freeExtents (unpopulated regions).state.heap) = ∅ := covered_nil
  refine ⟨rfl, separated_nil, ?_, hlive _ ?_, hlive _ ?_, ?_, ?_, hlive _ ?_, hlive _ ?_⟩
  · rw [hnone]
    exact Set.empty_subset _
  · intro region hregion
    have hin := awaitedBlock_within region
    have hout := h.inside region hregion
    exact ⟨hout.1.trans hin.1, hin.2.trans hout.2⟩
  · intro region hregion
    rw [awaitedBlock, actualSize_populatedLen]
    exact h.proper region hregion
  · apply pairwise_map.2
    apply h.apart.imp
    intro a b hdisj
    exact hdisj.mono (awaitedBlock_within a).subset (awaitedBlock_within b).subset
  · intro block _
    rw [hnone]
    exact Set.disjoint_empty _
  · intro region _ hauto
    cases hauto
  · intro region _
    rw [awaitedBlock, sub_self]
    exact zero_and

/-- **Heap accounting**: after every sequence of operations that is orderly, the counter of free
memory is the sum of the sizes on the free list; and after every sequence at all, free and used
memory together are what has been populated. -/
theorem heap_accounting (window : HeapWindow arch) (regions : List (HeapRegion arch))
    (ops : List (PoolOp arch)) :
    (RegionsApart window regions → Meets poolStep PoolOrderly (unpopulated regions) ops →
      (run poolStep (unpopulated regions) ops).state.heap.freemem.toNat =
        listed (run poolStep (unpopulated regions) ops).state.heap) ∧
      (run poolStep (unpopulated regions) ops).state.heap.freemem +
          (run poolStep (unpopulated regions) ops).state.heap.usedmem =
        (run poolStep (unpopulated regions) ops).total := by
  constructor
  · intro h hmeets
    have hstart : Sound window (unpopulated regions).state ∧
        Accounts (unpopulated regions).state.heap := ⟨sound_unpopulated h, rfl⟩
    exact (@run_invariant _ _ _ _
      (fun pool => Sound window pool.state ∧ Accounts pool.state.heap)
      (fun _ _ hinv horderly => accounts_poolStep hinv horderly) _ _ hstart hmeets).2
  · apply @run_keeps _ _ _ (fun pool : HeapPool arch => balance pool.state.heap = pool.total)
      (fun _ op hinv => balance_poolStep hinv op)
    exact add_zero _

end

/-- A window for regions in the first megabytes. -/
def lowWindow : HeapWindow i386 where
  lo := 0x1000
  hi := 0x1000000
  pos := by norm_num
  le := by norm_num [i386]
  half := by norm_num [i386]

/-- A block is allocated at the start of the region. -/
theorem heap_accounting_smallRegion :
    (run poolStep (unpopulated [smallRegion]) [.populate smallRegion,
      .use (.alloc 32#32 64#32 0#32 [])]).state.heap.freemem.toNat =
    listed (run poolStep (unpopulated [smallRegion]) [.populate smallRegion,
      .use (.alloc 32#32 64#32 0#32 [])]).state.heap := by
  apply (heap_accounting lowWindow [smallRegion] _).1
  · refine ⟨?_, ?_, pairwise_singleton _ _⟩
    · rw [forall_mem_singleton]
      decide +kernel
    · rw [forall_mem_singleton]
      exact ⟨by decide, by decide⟩
  · have hfree : (poolStep (unpopulated [smallRegion]) (.populate smallRegion)).state.heap.freeBlocks =
        [⟨0x100000#32, 0x1000#32⟩] := by
      decide +kernel
    refine ⟨?_, ⟨?_, ?_⟩, trivial⟩
    · exact ⟨nodup_singleton _, forall_mem_singleton.mpr
        ⟨awaitedBlock smallRegion, mem_singleton_self _, rfl, rfl⟩⟩
    · exact ⟨nodup_nil, forall_mem_nil _⟩
    · show SplitsWhole _ _ _ _
      exact @splitsWhole_of_fits i386 _ _ _ [] _ (by decide +kernel)
        ⟨.inl (by decide +kernel), .inr (by decide +kernel)⟩

/-- A region that begins eight bytes behind a multiple of the minimal block. -/
def unalignedRegion : HeapRegion i386 where
  start := 0x100008#32
  len := 0x1000#32
  fits := by decide

/-- The eight bytes before the first block that is allocated there are counted as free, but are on
no list. -/
theorem heap_accounting_unalignedRegion :
    (run poolStep (unpopulated [unalignedRegion]) [.populate unalignedRegion,
      .use (.alloc 32#32 1#32 0#32 [])]).state.heap.freemem.toNat = 4064 ∧
    listed (run poolStep (unpopulated [unalignedRegion]) [.populate unalignedRegion,
      .use (.alloc 32#32 1#32 0#32 [])]).state.heap = 4056 := by
  decide +kernel

end Ipxe.Analysis
