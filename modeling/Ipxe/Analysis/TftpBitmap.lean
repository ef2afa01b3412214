import Ipxe.Library.Runs
import Ipxe.Library.WordBits
import Ipxe.Model.Tftp

/-!
# The bitmap of received blocks

While blocks come in order, the bits that are set are those before the first gap.  Resizing the
bitmap to a greater length keeps them, and setting a bit at the gap or before it moves the gap by
one or not at all.
-/

namespace Ipxe.Analysis

open Library Model List

variable {arch : Platform} {bitmap : Bitmap} {count : ℕ}

theorem two_pow_sizeBits (arch : Platform) : 2 ^ 32 ≤ 2 ^ arch.sizeBits := by
  exact Nat.pow_le_pow_right (by decide) (le_sizeBits arch)

/-- The first `count` blocks have been received, and no others. -/
structure ReceivedFirst (arch : Platform) (bitmap : Bitmap) (count : ℕ) : Prop where
  gap : bitmap.firstGap = count
  bits : ∀ i, bitAt arch.sizeBits bitmap.blocks i = decide (i < count)
  words : bitmap.blocks.length = bitmapNumBlocks arch bitmap.length
  within : count ≤ bitmap.length
  small : bitmap.length + arch.sizeBits ≤ 2 ^ 32

theorem bitmapNumBlocks_eq {length : ℕ} (hsmall : length + arch.sizeBits ≤ 2 ^ 32) :
    bitmapNumBlocks arch length = (length + arch.sizeBits - 1) / arch.sizeBits := by
  have hle := two_pow_sizeBits arch
  unfold bitmapNumBlocks bitmapIndex
  rw [Nat.mod_eq_of_lt (by omega)]

theorem bitmapIndex_lt {length bit : ℕ} (hsmall : length + arch.sizeBits ≤ 2 ^ 32)
    (hbit : bit < length) : bitmapIndex arch bit < bitmapNumBlocks arch length := by
  have hpos := sizeBits_pos arch
  rw [bitmapNumBlocks_eq hsmall]
  calc bit / arch.sizeBits < bit / arch.sizeBits + 1 := Nat.lt_succ_self _
    _ = (bit + arch.sizeBits) / arch.sizeBits := (Nat.add_div_right _ hpos).symm
    _ ≤ (length + arch.sizeBits - 1) / arch.sizeBits := Nat.div_le_div_right (by omega)

theorem bitmapTest_eq (bit : ℕ) :
    bitmapTest arch bitmap bit =
      (decide (bit < bitmap.length) && bitAt arch.sizeBits bitmap.blocks bit) := by
  unfold bitmapTest bitAt bitmapIndex bitmapMask
  split_ifs with hout
  · rw [decide_eq_false (show ¬bit < bitmap.length by omega), Bool.false_and]
  · rw [decide_eq_true (show bit < bitmap.length by omega), Nat.and_two_pow]
    cases (bitmap.blocks.getD (bit / arch.sizeBits) 0).testBit (bit % arch.sizeBits) with
    | false => simp
    | true => simp

theorem bitmapTest_iff (bit : ℕ) : bitmapTest arch bitmap bit = true ↔
    bit < bitmap.length ∧ bitAt arch.sizeBits bitmap.blocks bit = true := by
  rw [bitmapTest_eq, Bool.and_eq_true, decide_eq_true_iff]

theorem isLeast_bitmapUpdateGap {more gap : ℕ}
    (hbelow : ∀ bit < gap, bitmapTest arch bitmap bit = true)
    (hmore : bitmap.length ≤ gap + more) :
    IsLeast {bit | ¬bitmapTest arch bitmap bit} (bitmapUpdateGap arch bitmap more gap) := by
  have hleast : ∀ {gap}, (∀ bit < gap, bitmapTest arch bitmap bit = true) →
      ¬bitmapTest arch bitmap gap → IsLeast {bit | ¬bitmapTest arch bitmap bit} gap :=
    fun hbelow hgap => ⟨hgap, fun bit hbit => not_lt.1 fun hlt => hbit (hbelow bit hlt)⟩
  induction more generalizing gap with
  | zero => exact hleast hbelow fun hset => not_lt.2 hmore ((bitmapTest_iff gap).1 hset).1
  | succ more ih =>
    unfold bitmapUpdateGap
    split_ifs with htest
    · refine ih (fun bit hbit => ?_) (by omega)
      rcases Nat.lt_succ_iff_lt_or_eq.1 hbit with hlt | rfl
      · exact hbelow bit hlt
      · exact htest
    · exact hleast hbelow htest

theorem ReceivedFirst.resize (h : ReceivedFirst arch bitmap count) {allocated : Bool}
    {newLength : ℕ} (hgrows : bitmap.length ≤ newLength)
    (hsmall : newLength + arch.sizeBits ≤ 2 ^ 32) {resized : Bitmap}
    (hresize : bitmapResize arch allocated bitmap newLength = .ok resized) :
    ReceivedFirst arch resized count ∧ resized.length = newLength := by
  have hwords : bitmapNumBlocks arch bitmap.length ≤ bitmapNumBlocks arch newLength := by
    rw [bitmapNumBlocks_eq h.small, bitmapNumBlocks_eq hsmall]
    exact Nat.div_le_div_right (by omega)
  have hblocks : bitmap.blocks.take (bitmapNumBlocks arch newLength) = bitmap.blocks :=
    take_of_length_le (by rw [h.words]; exact hwords)
  simp only [bitmapResize] at hresize
  split_ifs at hresize
  cases hresize
  refine ⟨⟨h.gap, ?_, ?_, ?_, hsmall⟩, rfl⟩
  · intro i
    simp only [hblocks]
    rw [bitAt_append_zeros]
    exact h.bits i
  · simp only [hblocks, length_append, length_replicate, h.words]
    omega
  · exact h.within.trans hgrows

theorem ReceivedFirst.set (h : ReceivedFirst arch bitmap count) {block : ℕ}
    (hblock : block < bitmap.length) (hnext : block ≤ count) :
    ReceivedFirst arch (bitmapSet arch bitmap block)
      (if block = count then count + 1 else count) := by
  have hindex : block / arch.sizeBits < bitmap.blocks.length := by
    rw [h.words]
    exact bitmapIndex_lt h.small hblock
  have hbits : ∀ i, bitAt arch.sizeBits (setBitAt arch.sizeBits bitmap.blocks block) i =
      decide (i < if block = count then count + 1 else count) := by
    intro i
    rw [bitAt_setBitAt _ hindex, h.bits, ← Bool.decide_or]
    apply decide_eq_decide.2
    split_ifs with hat <;> omega
  have hwithin : (if block = count then count + 1 else count) ≤ bitmap.length := by
    have hle := h.within
    split_ifs <;> omega
  refine ⟨?_, hbits, ?_, hwithin, h.small⟩
  · have htest : ∀ i, bitmapTest arch { bitmap with
        blocks := setBitAt arch.sizeBits bitmap.blocks block } i = true ↔
        i < if block = count then count + 1 else count := fun i => by
      rw [bitmapTest_iff, hbits, decide_eq_true_iff]
      exact and_iff_right_of_imp fun hlt => hlt.trans_le hwithin
    refine (isLeast_bitmapUpdateGap (fun i hi => (htest i).2 ?_) (Nat.le_add_left _ _)).unique
      ⟨fun hset => lt_irrefl _ ((htest _).1 hset),
        fun i hi => not_lt.1 fun hlt => hi ((htest i).2 hlt)⟩
    rw [h.gap] at hi
    split_ifs <;> omega
  · exact (length_setBitAt _ _ _).trans h.words

@[simp] theorem bitmapSet_length (block : ℕ) :
    (bitmapSet arch bitmap block).length = bitmap.length := rfl

/-! ## Histories of a bitmap -/

inductive BitmapCall where
  | resize (allocated : Bool) (newLength : ℕ)
  | set (bit : ℕ)

/-- A bitmap, with the bits that have been set since they last came into range. -/
structure BitmapHistory where
  bitmap : Bitmap := {}
  marked : Set ℕ := ∅

/-- A failed resize changes nothing; only bits below the length are set. -/
def bitmapStep (arch : Platform) (history : BitmapHistory) : BitmapCall → BitmapHistory
  | .resize allocated newLength =>
    match bitmapResize arch allocated history.bitmap newLength with
    | .ok bitmap => ⟨bitmap, history.marked ∩ Set.Iio newLength⟩
    | .error _ => history
  | .set bit =>
    if bit < history.bitmap.length then
      ⟨bitmapSet arch history.bitmap bit, insert bit history.marked⟩
    else history

structure BitmapRight (arch : Platform) (history : BitmapHistory) : Prop where
  gap : IsLeast history.markedᶜ history.bitmap.firstGap
  marks : ∀ bit, bitmapTest arch history.bitmap bit = true ↔ bit ∈ history.marked
  full : bitmapFull history.bitmap = true ↔ ∀ bit < history.bitmap.length, bit ∈ history.marked

/-- A bitmap is not made shorter than its first gap, and a word that is kept has no bit from an
earlier, greater length in it that comes into range; a bit that is set has a word. -/
def KeepsBits (arch : Platform) (history : BitmapHistory) : BitmapCall → Prop
  | .resize allocated newLength =>
    (bitmapNumBlocks arch history.bitmap.length ≠ bitmapNumBlocks arch newLength →
        allocated = true) →
      history.bitmap.firstGap ≤ newLength ∧
        ∀ bit < newLength, bitAt arch.sizeBits history.bitmap.blocks bit = true →
          (bit < history.bitmap.length ↔ bitmapIndex arch bit < bitmapNumBlocks arch newLength)
  | .set bit => bit < history.bitmap.length → bitmapIndex arch bit < history.bitmap.blocks.length

section

variable {history : BitmapHistory}

/-- Whether the bitmap is full follows from where its first gap is. -/
theorem bitmapRight_iff : BitmapRight arch history ↔
    IsLeast history.markedᶜ history.bitmap.firstGap ∧
      ∀ bit, bit < history.bitmap.length ∧
        bitAt arch.sizeBits history.bitmap.blocks bit = true ↔ bit ∈ history.marked := by
  simp only [← bitmapTest_iff]
  refine ⟨fun h => ⟨h.gap, h.marks⟩, fun ⟨hgap, hmarks⟩ => ⟨hgap, hmarks, ?_⟩⟩
  have hend : history.bitmap.length ∉ history.marked := by
    rw [← hmarks, bitmapTest_iff]
    exact fun h => lt_irrefl _ h.1
  refine decide_eq_true_iff.trans ⟨fun hfull bit hbit => ?_, fun hall => ?_⟩
  · by_contra hnot
    exact not_le.2 hbit (hfull ▸ hgap.2 hnot)
  · exact (hgap.2 hend).antisymm (not_lt.1 fun hlt => hgap.1 (hall _ hlt))

theorem BitmapRight.resize_iff (h : BitmapRight arch history) (allocated : Bool) (newLength : ℕ) :
    BitmapRight arch (bitmapStep arch history (.resize allocated newLength)) ↔
      KeepsBits arch history (.resize allocated newLength) := by
  obtain ⟨hgap, hmarks⟩ := bitmapRight_iff.1 h
  simp only [bitmapStep, bitmapResize, KeepsBits]
  split_ifs with hfails
  · exact iff_of_true h fun hallocated => by simp [hallocated hfails.1] at hfails
  · rw [forall_prop_of_true (by simpa using hfails), bitmapRight_iff]
    refine and_congr ⟨fun hleast => ?_, fun hle => ⟨fun hmem => hgap.1 hmem.1, ?_⟩⟩
      (forall_congr' fun bit => ?_)
    · exact hleast.2 fun hmem => lt_irrefl newLength hmem.2
    · intro bit hbit
      by_cases hmem : bit ∈ history.marked
      · exact hle.trans (not_lt.1 fun hlt => hbit ⟨hmem, hlt⟩)
      · exact hgap.2 hmem
    · rw [bitAt_append_zeros, bitAt_take, Set.mem_inter_iff, ← hmarks, Bool.and_eq_true,
        decide_eq_true_iff]
      change (bit < newLength ∧ bitmapIndex arch bit < _ ∧ _ ↔ _ ∧ bit < newLength) ↔ _
      tauto

theorem BitmapRight.set_iff (h : BitmapRight arch history) (bit : ℕ) :
    BitmapRight arch (bitmapStep arch history (.set bit)) ↔ KeepsBits arch history (.set bit) := by
  obtain ⟨hgap, hmarks⟩ := bitmapRight_iff.1 h
  simp only [bitmapStep, KeepsBits]
  split_ifs with hbit
  · rw [forall_prop_of_true hbit, bitmapRight_iff]
    refine ⟨fun hright => ?_, fun hword => ?_⟩
    · obtain ⟨-, hset⟩ := (hright.2 bit).2 (.inl rfl)
      by_contra hnone
      rw [bitmapIndex, not_lt] at hnone
      simp [bitAt, bitmapSet, bitmapIndex, hnone] at hset
    · have hset : ∀ other, other < history.bitmap.length ∧ bitAt arch.sizeBits
          (setBitAt arch.sizeBits history.bitmap.blocks bit) other = true ↔
          other ∈ insert bit history.marked := fun other => by
        rw [bitAt_setBitAt _ hword, Set.mem_insert_iff, ← hmarks]
        grind
      refine ⟨?_, hset⟩
      have hleast := @isLeast_bitmapUpdateGap arch { history.bitmap with
        blocks := setBitAt arch.sizeBits history.bitmap.blocks bit }
      simp only [bitmapTest_iff, hset] at hleast
      refine hleast (fun other hother => .inr ?_) (Nat.le_add_left _ _)
      by_contra hnot
      exact not_le.2 hother (hgap.2 hnot)
  · exact iff_of_true h fun hlt => absurd hlt hbit

end

/-- **Histories of a bitmap.**  After every sequence of calls the first gap is the least
bit that is not set, exactly the bits are set that were since they came into range, and the bitmap
is full if all are, exactly if each call keeps to `KeepsBits`.
[core/bitmap.c:42-106] -/
theorem bitmap_histories (arch : Platform) (calls : List BitmapCall) :
    (∀ past, past <+: calls → BitmapRight arch (run (bitmapStep arch) {} past)) ↔
      Meets (bitmapStep arch) (KeepsBits arch) {} calls := by
  have hstep : ∀ history call, BitmapRight arch history →
      (BitmapRight arch (bitmapStep arch history call) ↔ KeepsBits arch history call) :=
    fun history call h => BitmapCall.casesOn call h.resize_iff h.set_iff
  refine @meets_iff_forall _ _ _ (KeepsBits arch) (BitmapRight arch) _ (fun _ => id)
    (fun _ _ h => (hstep _ _ h).2) (fun _ _ h => (hstep _ _ h).1) {} ?_ calls
  exact bitmapRight_iff.2 ⟨⟨id, fun _ _ => Nat.zero_le _⟩, fun bit => by simp⟩

/-- Four bits that are set make two that are not full; and a bit comes back. -/
theorem bitmap_histories_shrunk :
    ¬BitmapRight .x64 (run (bitmapStep .x64) {}
        [.resize true 4, .set 0, .set 1, .set 2, .set 3, .resize true 2]) ∧
      ¬BitmapRight .x64 (run (bitmapStep .x64) {}
        [.resize true 4, .set 3, .resize true 2, .resize true 4]) := by
  refine ⟨fun h => ?_, fun h => ?_⟩
  · exact absurd (h.gap.2 (fun hmem => absurd hmem.2 (lt_irrefl 2))) (by decide)
  · exact absurd ((h.marks 3).1 rfl).1.2 (by decide)

end Ipxe.Analysis
