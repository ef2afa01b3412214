import Mathlib.Tactic

/-!
# Lists cut into blocks

A list cut into blocks of a fixed size, the last of which may be shorter.  Where a list
is cut into pieces at multiples of the size, the blocks of the whole are the blocks of
the pieces.
-/

namespace Ipxe.Library

open List

def chunks {α : Type} (size : ℕ) (items : List α) : List (List α) :=
  if size = 0 ∨ items = [] then [] else items.take size :: chunks size (items.drop size)
termination_by items.length
decreasing_by
  rename_i h
  rw [not_or] at h
  have hpos := length_pos_of_ne_nil h.2
  rw [length_drop]
  omega

section

variable {α : Type} {size : ℕ}

/-- Nothing is in no blocks. -/
@[simp] theorem chunks_nil (size : ℕ) : chunks size ([] : List α) = [] := by
  rw [chunks, if_pos (.inr rfl)]

variable (hsize : 0 < size)

include hsize

variable {items : List α}

/-- The first block, then the blocks of the rest. -/
theorem chunks_of_ne_nil (h : items ≠ []) :
    chunks size items = items.take size :: chunks size (items.drop size) := by
  rw [chunks, if_neg]
  rw [not_or]
  exact ⟨by omega, h⟩

/-- Induction block by block. -/
theorem chunks_induction {motive : List α → Prop} (nil : motive [])
    (block : ∀ items, items ≠ [] → motive (items.drop size) → motive items) (items : List α) :
    motive items := by
  induction hlen : items.length using Nat.strong_induction_on generalizing items with
  | _ length ih =>
    by_cases hnil : items = []
    · rw [hnil]
      exact nil
    · have hpos := length_pos_of_ne_nil hnil
      apply block items hnil
      exact ih (items.drop size).length (by rw [length_drop]; omega) _ rfl

/-- A whole block in front is the first one. -/
theorem chunks_block_append {block : List α} (hblock : block.length = size) (rest : List α) :
    chunks size (block ++ rest) = block :: chunks size rest := by
  have hne : block ++ rest ≠ [] := by
    apply ne_nil_of_length_pos
    rw [length_append]
    omega
  rw [chunks_of_ne_nil hsize hne, take_append_of_le_length hblock.ge, ← hblock,
    take_length, drop_left]

/-- What fits one block is one. -/
theorem chunks_of_length_le (hne : items ≠ []) (hlen : items.length ≤ size) :
    chunks size items = [items] := by
  rw [chunks_of_ne_nil hsize hne, take_of_length_le hlen, drop_of_length_le hlen, chunks_nil]

/-- The blocks together are the list. -/
theorem flatten_chunks (items : List α) : (chunks size items).flatten = items := by
  induction items using chunks_induction hsize with
  | nil => rw [chunks_nil, flatten_nil]
  | block items hne ih =>
    rw [chunks_of_ne_nil hsize hne, flatten_cons, ih, take_append_drop]

/-- Whole blocks in front stay what they are. -/
theorem chunks_append (hdvd : size ∣ items.length) (rest : List α) :
    chunks size (items ++ rest) = chunks size items ++ chunks size rest := by
  induction items using chunks_induction hsize with
  | nil => rw [chunks_nil, nil_append, nil_append]
  | block items hne ih =>
    have hlong : size ≤ items.length := Nat.le_of_dvd (length_pos_of_ne_nil hne) hdvd
    have htake : (items.take size).length = size := length_take_of_le hlong
    have hdrop : size ∣ (items.drop size).length := by
      rw [length_drop]
      exact Nat.dvd_sub hdvd (dvd_refl size)
    rw [chunks_of_ne_nil hsize hne, cons_append, ← ih hdrop,
      ← chunks_block_append hsize htake, ← append_assoc, take_append_drop]

/-- Pieces of whole blocks are cut one by one. -/
theorem chunks_flatten {pieces : List (List α)}
    (h : ∀ piece ∈ pieces.dropLast, size ∣ piece.length) :
    chunks size pieces.flatten = pieces.flatMap (chunks size) := by
  induction pieces with
  | nil => exact chunks_nil size
  | cons piece pieces ih =>
    cases pieces with
    | nil => simp
    | cons next pieces =>
      rw [dropLast_cons_cons, forall_mem_cons] at h
      rw [flatten_cons, chunks_append hsize h.1, ih h.2]
      rfl

/-- No block is too long. -/
theorem length_of_mem_chunks {items block : List α} (h : block ∈ chunks size items) :
    block.length ≤ size := by
  induction items using chunks_induction hsize with
  | nil =>
    rw [chunks_nil] at h
    exact absurd h not_mem_nil
  | block items hne ih =>
    rw [chunks_of_ne_nil hsize hne, mem_cons] at h
    rcases h with rfl | h
    · exact length_take_le _ _
    · exact ih h

/-- Only the last block may be short. -/
theorem length_of_mem_dropLast_chunks {block : List α}
    (h : block ∈ (chunks size items).dropLast) : block.length = size := by
  induction items using chunks_induction hsize with
  | nil =>
    rw [chunks_nil] at h
    exact absurd h not_mem_nil
  | block items hne ih =>
    rw [chunks_of_ne_nil hsize hne] at h
    by_cases hrest : items.drop size = []
    · rw [hrest, chunks_nil] at h
      exact absurd h not_mem_nil
    rw [chunks_of_ne_nil hsize hrest, dropLast_cons_cons, ← chunks_of_ne_nil hsize hrest,
      mem_cons] at h
    have hlong := length_pos_of_ne_nil hrest
    rw [length_drop] at hlong
    rcases h with rfl | h
    · exact length_take_of_le (by omega)
    · exact ih h

/-- Blocks of the lengths that the blocks of a list have are the blocks of what they make. -/
theorem chunks_flatten_of_lengths {blocks : List (List α)}
    (h : blocks.map List.length = (chunks size items).map List.length) :
    chunks size blocks.flatten = blocks := by
  induction items using chunks_induction hsize generalizing blocks with
  | nil =>
    rw [chunks_nil, map_nil, map_eq_nil_iff] at h
    rw [h, flatten_nil, chunks_nil]
  | block items hne ih =>
    have hpos := length_pos_of_ne_nil hne
    rw [chunks_of_ne_nil hsize hne, map_cons] at h
    cases blocks with
    | nil => exact absurd h (by simp)
    | cons block blocks =>
      rw [map_cons, List.cons.injEq] at h
      obtain ⟨hblock, hrest⟩ := h
      by_cases hlast : items.length ≤ size
      · rw [drop_of_length_le hlast, chunks_nil, map_nil, map_eq_nil_iff] at hrest
        rw [take_of_length_le hlast] at hblock
        have hne : block ≠ [] := ne_nil_of_length_pos (by omega)
        rw [hrest, flatten_singleton, chunks_of_length_le hsize hne (by omega)]
      · rw [length_take_of_le (by omega)] at hblock
        rw [flatten_cons, chunks_block_append hsize hblock, ih hrest]

end

end Ipxe.Library
