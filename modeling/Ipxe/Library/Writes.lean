import Ipxe.Library.Bytes
import Mathlib.Data.List.GetD
import Mathlib.Tactic

/-!
# Writes to a buffer

A sequence of writes of bytes at offsets of a buffer.  Where the writes ascend, none touching
the one before, everything can be read back.
-/

namespace Ipxe.Library

open List

variable (mem : ℤ → UInt8)

/-- The memory around a buffer after some bytes have been written at an offset. -/
def writeAt (write : ℤ × Bytes) : ℤ → UInt8 := fun pos =>
  if write.1 ≤ pos ∧ pos < write.1 + write.2.length then write.2.getD (pos - write.1).toNat 0
  else mem pos

variable (writes : List (ℤ × Bytes))

def applyWrites : ℤ → UInt8 :=
  writes.foldl writeAt mem

def readBytes (pos : ℤ) (len : ℕ) : Bytes :=
  (List.range len).map fun i : ℕ => mem (pos + i)

/-- Each write ends before the next begins. -/
def Ascending : Prop :=
  writes.Pairwise fun a b : ℤ × Bytes => a.1 + a.2.length ≤ b.1

/-- As many as asked for. -/
@[simp] theorem length_readBytes (pos : ℤ) (len : ℕ) : (readBytes mem pos len).length = len := by
  simp [readBytes]

/-- First some, then the others. -/
theorem readBytes_add (pos : ℤ) (m n : ℕ) :
    readBytes mem pos (m + n) = readBytes mem pos m ++ readBytes mem (pos + m) n := by
  simp only [readBytes, range_add, map_append, map_map]
  congr 2
  funext i
  simp [add_assoc]

/-- In front of all writes nothing changes. -/
theorem applyWrites_untouched {mem : ℤ → UInt8} {writes : List (ℤ × Bytes)} {pos : ℤ}
    (h : ∀ write ∈ writes, pos < write.1) : applyWrites mem writes pos = mem pos := by
  induction writes generalizing mem with
  | nil => rfl
  | cons write writes ih =>
    obtain ⟨hfirst, hrest⟩ := forall_mem_cons.1 h
    have hskip : writeAt mem write pos = mem pos := if_neg fun hin => by omega
    exact (ih hrest).trans hskip

/-- What was written is read, if no writes overlap. -/
theorem readBytes_applyWrites {mem : ℤ → UInt8} {writes : List (ℤ × Bytes)}
    (hascending : Ascending writes) {write : ℤ × Bytes} (h : write ∈ writes) :
    readBytes (applyWrites mem writes) write.1 write.2.length = write.2 := by
  induction writes generalizing mem with
  | nil => exact absurd h not_mem_nil
  | cons first writes ih =>
    obtain ⟨hfirst, hrest⟩ := pairwise_cons.1 hascending
    rcases mem_cons.1 h with rfl | h
    · apply ext_getElem (length_readBytes _ _ _)
      intro i hi hi'
      have hkept : applyWrites mem (write :: writes) (write.1 + i) =
          writeAt mem write (write.1 + i) :=
        @applyWrites_untouched (writeAt mem write) writes (write.1 + i) fun next hnext => by
          have hle := hfirst next hnext
          omega
      simp only [readBytes, getElem_map, getElem_range, hkept, writeAt]
      rw [if_pos (by omega), add_sub_cancel_left, Int.toNat_natCast, getD_eq_getElem _ _ hi']
    · exact ih hrest h

/-- The writes ascend from `lo` on, up to `hi`. -/
structure Written (lo hi : ℤ) (writes : List (ℤ × Bytes)) : Prop where
  ascending : Ascending writes
  inside : ∀ write ∈ writes, lo ≤ write.1 ∧ write.1 + write.2.length ≤ hi
  le : lo ≤ hi

/-- A write in front of the others. -/
theorem Written.cons {lo hi pos : ℤ} {bytes : Bytes} {writes : List (ℤ × Bytes)}
    (h : Written lo hi writes) (hpos : pos + bytes.length ≤ lo) :
    Written pos hi ((pos, bytes) :: writes) where
  ascending := pairwise_cons.2 ⟨fun write hwrite => hpos.trans (h.inside write hwrite).1, h.ascending⟩
  inside := by
    have hle := h.le
    refine forall_mem_cons.2 ⟨⟨le_rfl, hpos.trans hle⟩, fun write hwrite => ?_⟩
    obtain ⟨hlo, hhi⟩ := h.inside write hwrite
    exact ⟨by omega, hhi⟩
  le := by
    have hle := h.le
    omega

end Ipxe.Library
