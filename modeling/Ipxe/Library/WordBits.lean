import Mathlib.Data.List.TakeWhile
import Mathlib.Data.Nat.Bitwise

/-!
# Bits in a list of words

A list of words of `w` bits each is a sequence of bits, those of the first word first and of a
word the lowest first.  Behind the last word there are only zeros.
-/

namespace Ipxe.Library

open List

variable (w : ℕ) (words : List ℕ) (i : ℕ)

def bitAt : Bool := (words.getD (i / w) 0).testBit (i % w)

/-- The words with one more bit set, if it is one of theirs. -/
def setBitAt : List ℕ := words.modify (i / w) (· ||| 2 ^ (i % w))

/-- There are only zeros. -/
@[simp] theorem bitAt_nil : bitAt w [] i = false := by
  rw [bitAt, getD_nil, Nat.zero_testBit]

/-- No word is added. -/
@[simp] theorem length_setBitAt : (setBitAt w words i).length = words.length := by
  rw [setBitAt, length_modify]

/-- More of what is behind changes nothing. -/
theorem getD_append_replicate {α : Type} (words : List α) (word : α) (n i : ℕ) :
    (words ++ replicate n word).getD i word = words.getD i word := by
  rcases lt_or_ge i words.length with hin | hout
  · rw [getD_append _ _ _ _ hin]
  · rw [getD_append_right _ _ _ _ hout, getD_eq_default words _ hout,
      getD_eq_getElem?_getD, getElem?_getD_replicate_default_eq]

/-- Bits behind the words kept are zero. -/
theorem bitAt_take (n i : ℕ) :
    bitAt w (words.take n) i = (decide (i / w < n) && bitAt w words i) := by
  rw [bitAt, bitAt, getD_eq_getElem?_getD, getD_eq_getElem?_getD, getElem?_take]
  split_ifs with hin
  · rw [decide_eq_true hin, Bool.true_and]
  · rw [decide_eq_false hin, Bool.false_and, Option.getD_none, Nat.zero_testBit]

/-- Words of zeros change nothing. -/
theorem bitAt_append_zeros (n i : ℕ) : bitAt w (words ++ replicate n 0) i = bitAt w words i := by
  rw [bitAt, getD_append_replicate, bitAt]

/-- The bit is set, and no other. -/
theorem bitAt_setBitAt {words : List ℕ} {i : ℕ} (hi : i / w < words.length) (j : ℕ) :
    bitAt w (setBitAt w words i) j = (decide (j = i) || bitAt w words j) := by
  unfold bitAt setBitAt
  rw [getD_eq_getElem?_getD, getD_eq_getElem?_getD, getElem?_modify]
  by_cases hword : i / w = j / w
  · simp only [hword, if_true]
    rw [← hword, getElem?_eq_getElem hi]
    simp only [Option.map_eq_map, Option.map_some, Option.getD_some, Nat.testBit_or,
      Nat.testBit_two_pow]
    have hbit : i % w = j % w ↔ j = i := by
      constructor
      · intro hrest
        rw [← Nat.div_add_mod j w, ← hword, ← hrest, Nat.div_add_mod]
      · rintro rfl
        rfl
    rw [Bool.or_comm, decide_eq_decide.2 hbit]
  · have hne : j ≠ i := by
      rintro rfl
      exact hword rfl
    simp only [hword, if_false, Option.map_eq_map, Option.map_id', decide_eq_false hne,
      Bool.false_or]

end Ipxe.Library
