import Ipxe.Interface.HeapUse
import Ipxe.Library.BitMasks
import Ipxe.Library.SerialNumber

/-!
# The free list

`insertFree` does to the blocks what `coalesce` does to their extents, and `allocSearch` carves a
piece out of one.  In a window of half the address space, the sign of the difference of two
addresses says which comes first.
-/

namespace Ipxe.Analysis

open Library Model Interface List
open BitVec hiding not_or

section

variable {arch : HeapArch} (block : MemoryBlock arch)

theorem ofNat_lo : BitVec.ofNat arch.w (blockExtent block).lo = block.addr := by
  rw [blockExtent, ofNat_toNat, setWidth_eq]

theorem ofNat_hi : BitVec.ofNat arch.w (blockExtent block).hi = block.addr + block.size := by
  rw [blockExtent, ofNat_add, ofNat_toNat, ofNat_toNat, setWidth_eq, setWidth_eq]

/-- A window of the address space in which differences have the right sign. -/
structure HeapWindow (arch : HeapArch) where
  lo : ℕ
  hi : ℕ
  pos : 0 < lo
  le : hi ≤ 2 ^ arch.w
  half : hi - lo ≤ 2 ^ (arch.w - 1)

variable (window : HeapWindow arch)

def HeapWindow.extent : Interval := ⟨window.lo, window.hi⟩

theorem two_pow_pred (arch : HeapArch) : 2 ^ (arch.w - 1) * 2 = 2 ^ arch.w := by
  have hw := arch.minShift_lt
  rw [← pow_succ]
  congr 1
  omega

theorem toInt_gap {x y : ℕ} (hx : window.lo ≤ x) (hx' : x ≤ window.hi)
    (hy : window.lo < y) (hy' : y ≤ window.hi) :
    (BitVec.ofNat arch.w x - BitVec.ofNat arch.w y).toInt = x - y := by
  have hpow := two_pow_pred arch
  have hhalf := window.half
  have hz : ((2 ^ arch.w : ℕ) : ℤ) = 2 ^ arch.w := by push_cast; rfl
  apply toInt_ofNat_sub <;> omega

theorem blockExtent_merge {first second : MemoryBlock arch}
    (hfirst : (blockExtent first).Within window.extent)
    (hsecond : (blockExtent second).Within window.extent)
    (htouch : (blockExtent first).hi = (blockExtent second).lo) :
    blockExtent ⟨first.addr, first.size + second.size⟩ =
      ⟨(blockExtent first).lo, (blockExtent second).hi⟩ := by
  have hpow := two_pow_pred arch
  have hhalf := window.half
  simp only [Interval.Within, HeapWindow.extent, blockExtent] at hfirst hsecond htouch ⊢
  rw [toNat_add_of_lt (by omega)]
  congr 1
  omega

/-- **Inserting a block in the free list coalesces it.** -/
theorem insertFree_eq_coalesce (window : HeapWindow arch) {actual : BitVec arch.w}
    {freeing : MemoryBlock arch} {blocks : List (MemoryBlock arch)}
    (hsep : Separated (blocks.map blockExtent))
    (hproper : (blockExtent freeing).lo < (blockExtent freeing).hi)
    (hdisj : Disjoint (blockExtent freeing).toSet (covered (blocks.map blockExtent)))
    (hwithin : (blockExtent freeing).Within window.extent)
    (hinside : ∀ block ∈ blocks, (blockExtent block).Within window.extent)
    (hactual : freeing.size = actual ∨
      ∀ block ∈ blocks, (blockExtent freeing).lo < (blockExtent block).lo) :
    ∃ blocks', insertFree actual freeing blocks = some blocks' ∧
      blocks'.map blockExtent = coalesce (blockExtent freeing) (blocks.map blockExtent) := by
  induction blocks generalizing freeing with
  | nil => exact ⟨[freeing], rfl, rfl⟩
  | cons block blocks ih =>
    rw [map_cons] at hsep hdisj ⊢
    obtain ⟨hblock, hbehind, hsep⟩ := separated_cons.1 hsep
    rw [covered_cons, Set.disjoint_union_right] at hdisj
    have hin := hinside block (by simp)
    have hinside' : ∀ block ∈ blocks, (blockExtent block).Within window.extent :=
      fun b hb => hinside b (by simp [hb])
    simp only [Interval.Within, HeapWindow.extent] at hin hwithin
    have hbefore : (freeing.addr - (block.addr + block.size)).toInt =
        (blockExtent freeing).lo - (blockExtent block).hi := by
      rw [← ofNat_lo freeing, ← ofNat_hi block]
      apply toInt_gap window <;> omega
    have hafter : (block.addr - (freeing.addr + freeing.size)).toInt =
        (blockExtent block).lo - (blockExtent freeing).hi := by
      rw [← ofNat_lo block, ← ofNat_hi freeing]
      apply toInt_gap window <;> omega
    simp only [insertFree, hafter, coalesce]
    by_cases hmerge : (blockExtent block).hi = (blockExtent freeing).lo
    · -- the blocks behind this one lie behind the merged one, too
      rw [if_pos (by omega), if_neg (by omega), if_pos hmerge]
      have hsize : freeing.size = actual := by
        rcases hactual with hsize | hfirst
        · exact hsize
        · have hlt := hfirst block (by simp)
          omega
      have hextent : blockExtent ⟨block.addr, block.size + actual⟩ =
          ⟨(blockExtent block).lo, (blockExtent freeing).hi⟩ :=
        hsize ▸ blockExtent_merge window hin hwithin hmerge
      have hunion := toSet_union_toSet hblock.le hproper.le hmerge
      have hmerged := @ih ⟨block.addr, block.size + actual⟩
      rw [hextent] at hmerged
      refine hmerged hsep (by simp only; omega) ?_ ⟨hin.1, hwithin.2⟩ hinside' (.inr ?_)
      · rw [← hunion, Set.disjoint_union_left]
        exact ⟨disjoint_covered_of_lt fun j hj => (hbehind j hj).le, hdisj.2⟩
      · intro b hb
        have hlt := hbehind (blockExtent b) (mem_map_of_mem hb)
        simp only
        omega
    · rw [if_neg (by omega), if_neg hmerge]
      by_cases htouch : (blockExtent freeing).hi = (blockExtent block).lo
      · rw [if_pos (by omega), if_pos htouch]
        refine ⟨_, rfl, ?_⟩
        rw [map_cons, blockExtent_merge window hwithin hin htouch]
      · rw [if_neg (by omega), if_neg htouch]
        by_cases hfollows : (blockExtent freeing).hi < (blockExtent block).lo
        · rw [if_pos (by omega), if_pos hfollows]
          exact ⟨_, rfl, rfl⟩
        · rw [if_neg (by omega), if_neg hfollows]
          obtain ⟨blocks', heq, hmap⟩ := ih hsep hproper hdisj.2 hwithin hinside'
            (hactual.imp_right fun hfirst b hb => hfirst b (by simp [hb]))
          refine ⟨block :: blocks', by rw [heq]; rfl, ?_⟩
          rw [map_cons, hmap]

theorem minMemblockSize_pos (arch : HeapArch) : 0 < (minMemblockSize arch).toNat := by
  rw [minMemblockSize, toNat_twoPow_of_lt arch.minShift_lt]
  exact Nat.two_pow_pos _

/-- What an allocation takes out of the free list. -/
structure Carved (actual mask offset ptr : BitVec arch.w) (blocks blocks' : List (MemoryBlock arch)) :
    Prop where
  separated : Separated (blocks'.map blockExtent)
  covered_subset : covered (blocks'.map blockExtent) ⊆ covered (blocks.map blockExtent)
  taken : Interval.toSet ⟨ptr.toNat, ptr.toNat + actual.toNat⟩ ⊆ covered (blocks.map blockExtent)
  disjoint : Disjoint (Interval.toSet ⟨ptr.toNat, ptr.toNat + actual.toNat⟩)
    (covered (blocks'.map blockExtent))
  placed : (offset - virtToPhys ptr) &&& mask = 0

/-- What is left of the block in which an allocation is made. -/
def allocPieces (actual preSize : BitVec arch.w) (block : MemoryBlock arch) :
    List (MemoryBlock arch) :=
  let postSize := block.size - preSize - actual
  (if preSize < minMemblockSize arch then [] else [⟨block.addr, preSize⟩]) ++
    if postSize < minMemblockSize arch then [] else [⟨block.addr + preSize + actual, postSize⟩]

theorem allocSearch_some {actual mask offset ptr : BitVec arch.w}
    {blocks blocks' : List (MemoryBlock arch)}
    (h : allocSearch actual mask offset blocks = some (ptr, blocks')) :
    ∃ l₁ block l₂ preSize, blocks = l₁ ++ block :: l₂ ∧
      preSize = (offset - virtToPhys block.addr) &&& mask ∧
      ¬ block.size < preSize ∧ ¬ block.size - preSize < actual ∧
      ptr = block.addr + preSize ∧ blocks' = l₁ ++ allocPieces actual preSize block ++ l₂ := by
  induction blocks generalizing blocks' with
  | nil => cases h
  | cons block blocks ih =>
    simp only [allocSearch] at h
    split at h
    · obtain ⟨⟨ptr', rest⟩, hfound, heq⟩ := Option.map_eq_some_iff.1 h
      cases heq
      obtain ⟨l₁, b, l₂, preSize, rfl, hrest⟩ := ih hfound
      refine ⟨block :: l₁, b, l₂, preSize, rfl, ?_⟩
      simpa using hrest
    · next hfits =>
        rw [not_or] at hfits
        cases h
        exact ⟨[], block, blocks, _, rfl, rfl, hfits.1, hfits.2, rfl, rfl⟩

theorem allocPieces_sides {actual preSize : BitVec arch.w} {block : MemoryBlock arch}
    (hle : (blockExtent block).hi ≤ 2 ^ arch.w) (hactual : actual ≠ 0)
    (hpre : ¬ block.size < preSize) (hroom : ¬ block.size - preSize < actual) :
    let ptr := block.addr + preSize
    let postSize := block.size - preSize - actual
    let taken : Interval := ⟨ptr.toNat, ptr.toNat + actual.toNat⟩
    taken.Within (blockExtent block) ∧ taken.lo < taken.hi ∧
      (¬ preSize < minMemblockSize arch → (blockExtent block).lo < taken.lo) ∧
      (¬ postSize < minMemblockSize arch → taken.hi < (blockExtent block).hi) ∧
      (allocPieces actual preSize block).map blockExtent =
        sides (¬ preSize < minMemblockSize arch) (¬ postSize < minMemblockSize arch)
          (blockExtent block) taken := by
  intro ptr postSize taken
  have hmin := minMemblockSize_pos arch
  have hpos : 0 < actual.toNat := (BitVec.pos_iff_ne_zero _).2 hactual
  rw [BitVec.not_lt, BitVec.le_def] at hpre hroom
  have hrest : (block.size - preSize).toNat = block.size.toNat - preSize.toNat :=
    toNat_sub_of_le (BitVec.le_def.2 hpre)
  rw [hrest] at hroom
  simp only [blockExtent] at hle
  have hptr : ptr.toNat = block.addr.toNat + preSize.toNat := toNat_add_of_lt (by omega)
  have hpostSize : postSize.toNat = block.size.toNat - preSize.toNat - actual.toNat := by
    rw [toNat_sub_of_le (BitVec.le_def.2 (by rw [hrest]; exact hroom)), hrest]
  refine ⟨⟨?_, ?_⟩, ?_, ?_, ?_, ?pieces⟩
  case pieces =>
    have hpreExtent : blockExtent ⟨block.addr, preSize⟩ = ⟨block.addr.toNat, ptr.toNat⟩ := by
      rw [blockExtent, hptr]
    have hpostExtent (hkept : ¬ postSize < minMemblockSize arch) :
        blockExtent ⟨ptr + actual, postSize⟩ =
          ⟨ptr.toNat + actual.toNat, block.addr.toNat + block.size.toNat⟩ := by
      rw [BitVec.not_lt, BitVec.le_def, hpostSize] at hkept
      simp only [blockExtent]
      rw [toNat_add_of_lt (by omega), hpostSize]
      congr 1
      omega
    unfold sides allocPieces
    simp only [map_append]
    congr 1
    · split
      · rfl
      · rw [map_singleton, hpreExtent]
        rfl
    · split
      · rfl
      · next hkept =>
          rw [map_singleton, hpostExtent hkept]
          rfl
  all_goals
    simp only [taken, blockExtent, BitVec.not_lt, BitVec.le_def]
    omega

/-- **An allocation carves its block out of the free list.** -/
theorem allocSearch_carved {actual mask offset ptr : BitVec arch.w}
    {blocks blocks' : List (MemoryBlock arch)} (hsep : Separated (blocks.map blockExtent))
    (hle : ∀ block ∈ blocks, (blockExtent block).hi ≤ 2 ^ arch.w) (hactual : actual ≠ 0)
    (h : allocSearch actual mask offset blocks = some (ptr, blocks')) :
    Carved actual mask offset ptr blocks blocks' := by
  obtain ⟨l₁, block, l₂, preSize, rfl, hpreSize, hpre, hroom, rfl, rfl⟩ := allocSearch_some h
  obtain ⟨hwithin, hproper, hbefore, hbehind, hpieces⟩ :=
    allocPieces_sides (hle block (by simp)) hactual hpre hroom
  obtain ⟨hleft, hinside, hdisj⟩ := sides_spec hwithin hproper hbefore hbehind
  rw [← hpieces] at hleft hinside hdisj
  rw [map_append] at hsep
  refine ⟨?_, ?_, ?_, ?_, ?_⟩
  · rw [map_append, map_append]
    exact hsep.carve hleft hinside
  · rw [map_append, map_append, map_append]
    exact covered_carve hinside
  · exact hwithin.subset.trans (toSet_subset_covered (by simp))
  · rw [map_append, map_append]
    exact hsep.disjoint_carve hwithin hdisj
  · -- the bits of the mask have just been subtracted
    have hoffset : offset - virtToPhys (block.addr + preSize) =
        (offset - virtToPhys block.addr) - preSize := by
      simp only [virtToPhys]
      ring
    rw [hoffset, hpreSize]
    exact sub_and_and _ _

end

end Ipxe.Analysis
