import Ipxe.Library.Bytes
import Mathlib.Tactic

/-!
# Text written to a buffer

A text is written to a buffer item by item from some offset on; what does not fit is lost.  The
string that a buffer holds ends before the first item that a test rejects.
-/

namespace Ipxe.Library

open List

variable {α : Type}

/-- The buffer after the items of a text have been written from an offset on. -/
def setFrom (buffer : List α) (offset : ℕ) : List α → List α
  | [] => buffer
  | item :: text => setFrom (buffer.set offset item) (offset + 1) text

/-- Text after text. -/
theorem setFrom_append (buffer text more : List α) (offset : ℕ) :
    setFrom buffer offset (text ++ more) =
      setFrom (setFrom buffer offset text) (offset + text.length) more := by
  induction text generalizing buffer offset with
  | nil => rfl
  | cons item text ih =>
    rw [cons_append, setFrom, ih, setFrom, length_cons, add_assoc, add_comm 1 text.length]

/-- A buffer keeps its length. -/
@[simp] theorem length_setFrom (buffer text : List α) (offset : ℕ) :
    (setFrom buffer offset text).length = buffer.length := by
  induction text generalizing buffer offset with
  | nil => rfl
  | cons item text ih => rw [setFrom, ih, length_set]

/-- In front nothing changes. -/
theorem getElem?_setFrom_of_lt (buffer text : List α) {offset i : ℕ} (h : i < offset) :
    (setFrom buffer offset text)[i]? = buffer[i]? := by
  induction text generalizing buffer offset with
  | nil => rfl
  | cons item text ih => rw [setFrom, ih _ (by omega), getElem?_set_ne (by omega)]

/-- The text is where it was put. -/
theorem getElem?_setFrom (buffer text : List α) (offset i : ℕ) (h : i < text.length)
    (hroom : offset + i < buffer.length) : (setFrom buffer offset text)[offset + i]? = text[i]? := by
  induction text generalizing buffer offset i with
  | nil => exact absurd h (Nat.not_lt_zero i)
  | cons item text ih =>
    rw [setFrom]
    cases i with
    | zero =>
      rw [getElem?_setFrom_of_lt _ _ (by omega : offset + 0 < offset + 1)]
      exact getElem?_set_self hroom
    | succ i =>
      rw [getElem?_cons_succ, ← ih (buffer.set offset item) (offset + 1) i
        (Nat.lt_of_succ_lt_succ h) (by rw [length_set]; omega)]
      congr 1
      omega

/-- A text that ends is found. -/
theorem takeWhile_eq_of_getElem? {p : α → Bool} {items text : List α}
    (htext : ∀ item ∈ text, p item = true) (hitems : ∀ i < text.length, items[i]? = text[i]?)
    (hend : ∀ item, items[text.length]? = some item → p item = false) :
    items.takeWhile p = text := by
  induction text generalizing items with
  | nil =>
    cases items with
    | nil => rfl
    | cons first items =>
      rw [takeWhile_cons, hend first rfl]
      rfl
  | cons first text ih =>
    cases items with
    | nil => exact absurd (hitems 0 (Nat.succ_pos _)) (by simp)
    | cons other items =>
      have hfirst : other = first := by simpa using hitems 0 (Nat.succ_pos _)
      subst hfirst
      rw [takeWhile_cons_of_pos (htext other mem_cons_self)]
      congr 1
      refine ih (fun item hitem => htext item (mem_cons_of_mem _ hitem)) ?_ ?_
      · intro i hi
        simpa using hitems (i + 1) (Nat.succ_lt_succ hi)
      · intro item hitem
        exact hend item (by simpa using hitem)

/-- The string that a buffer of bytes holds, up to its terminator. -/
def storedString (buffer : Bytes) : Bytes := buffer.takeWhile (· ≠ 0)

/-- The string is what had room of the text. -/
theorem storedString_eq {buffer text : Bytes} {room : ℕ} (htext : ∀ char ∈ text, char ≠ 0)
    (hwritten : ∀ i < min room text.length, buffer[i]? = text[i]?)
    (hend : ∀ char, buffer[min room text.length]? = some char → char = 0) :
    storedString buffer = text.take room := by
  apply takeWhile_eq_of_getElem?
  · intro char hchar
    exact decide_eq_true (htext char (mem_of_mem_take hchar))
  · intro i hi
    rw [length_take] at hi
    rw [hwritten i hi, getElem?_take_of_lt (lt_min_iff.1 hi).1]
  · intro char hchar
    rw [length_take] at hchar
    rw [hend char hchar]
    rfl

end Ipxe.Library
