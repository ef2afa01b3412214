import Ipxe.Library.SerialNumber

/-!
# Memory of bytes

A range of memory is given by the address it begins at and its length, and may go round the end of
the address space.
-/

namespace Ipxe.Library

open BitVec

variable {w : ℕ}

variable {n : ℕ} (content : ℕ → UInt8)

def ByteMemory (w : ℕ) : Type := BitVec w → UInt8

/-- How far an address lies ahead of another. -/
def ahead (base addr : BitVec w) : ℕ := (addr - base).toNat

/-- A distance is less than the address space. -/
theorem ahead_lt (base addr : BitVec w) : ahead base addr < 2 ^ w := BitVec.isLt _

/-- The `n`th address is `n` ahead. -/
theorem ahead_serialAt_self (base : BitVec w) (h : n < 2 ^ w) :
    ahead base (serialAt base n) = n := by
  rw [ahead, serialAt, add_sub_cancel_left, toNat_ofNat, Nat.mod_eq_of_lt h]

/-- From an address further ahead, the addresses before it are seen round the end of the address
space. -/
theorem ahead_serialAt (base addr : BitVec w) (h : n < 2 ^ w) :
    ahead (serialAt base n) addr =
      if n ≤ ahead base addr then ahead base addr - n else ahead base addr + 2 ^ w - n := by
  have hlt := ahead_lt base addr
  have hsub : addr - serialAt base n = addr - base - BitVec.ofNat w n := by
    rw [serialAt, sub_sub]
  rw [ahead, hsub, toNat_sub, toNat_ofNat, Nat.mod_eq_of_lt h]
  change (2 ^ w - n + ahead base addr) % 2 ^ w = _
  split_ifs with hle
  · rw [show 2 ^ w - n + ahead base addr = 2 ^ w + (ahead base addr - n) by omega,
      Nat.add_mod_left, Nat.mod_eq_of_lt (by omega)]
  · rw [Nat.mod_eq_of_lt (by omega)]
    omega

/-- Memory after `len` bytes from `base` on have been written. -/
def fill (mem : ByteMemory w) (base : BitVec w) (len : ℕ) (content : ℕ → UInt8) : ByteMemory w :=
  fun addr => if ahead base addr < len then content (ahead base addr) else mem addr

section

variable (mem : ByteMemory w) (base : BitVec w)

/-- Nothing is filled. -/
@[simp] theorem fill_zero : fill mem base 0 content = mem := by
  funext addr
  exact if_neg (Nat.not_lt_zero _)

variable {len : ℕ}

/-- Inside is the content. -/
theorem fill_serialAt (hlen : len ≤ 2 ^ w) (h : n < len) :
    fill mem base len content (serialAt base n) = content n := by
  rw [fill, ahead_serialAt_self base (h.trans_le hlen), if_pos h]

/-- Outside nothing changes. -/
theorem fill_outside {addr : BitVec w} (h : len ≤ ahead base addr) :
    fill mem base len content addr = mem addr :=
  if_neg h.not_gt

/-- Only the content inside matters. -/
theorem fill_congr {content content' : ℕ → UInt8} (h : ∀ i < len, content i = content' i) :
    fill mem base len content = fill mem base len content' := by
  funext addr
  simp only [fill]
  split_ifs with hlt
  · exact h _ hlt
  · rfl

/-- The later content stays. -/
theorem fill_fill (len : ℕ) (content content' : ℕ → UInt8) :
    fill (fill mem base len content) base len content' = fill mem base len content' := by
  funext addr
  simp only [fill]
  split_ifs <;> rfl

/-- A range further ahead that does not go round, seen from the base. -/
theorem fill_ahead {m : ℕ} (h : m + n ≤ 2 ^ w) (addr : BitVec w) :
    fill mem (serialAt base m) n content addr =
      if m ≤ ahead base addr ∧ ahead base addr < m + n then content (ahead base addr - m)
      else mem addr := by
  rcases Nat.eq_zero_or_pos n with rfl | hn
  · rw [fill_zero, if_neg (by omega)]
  · simp only [fill, ahead_serialAt base addr (show m < 2 ^ w by omega)]
    split_ifs <;> first | rfl | omega

/-- Two neighbouring parts are one. -/
theorem fill_append {m : ℕ} (content' : ℕ → UInt8) (h : m + n ≤ 2 ^ w) :
    fill (fill mem base m content) (serialAt base m) n content' =
      fill mem base (m + n) fun i => if i < m then content i else content' (i - m) := by
  funext addr
  rw [fill_ahead _ _ _ h]
  simp only [fill]
  split_ifs <;> first | rfl | omega

/-- A part inside is content of the whole. -/
theorem fill_within {m : ℕ} (content' : ℕ → UInt8) (h : m + n ≤ len) (hlen : len ≤ 2 ^ w) :
    fill (fill mem base len content) (serialAt base m) n content' =
      fill mem base len fun i => if m ≤ i ∧ i < m + n then content' (i - m) else content i := by
  funext addr
  rw [fill_ahead _ _ _ (h.trans hlen)]
  simp only [fill]
  split_ifs <;> first | rfl | omega

end

end Ipxe.Library
