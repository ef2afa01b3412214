import Ipxe.Library.Bytes
import Mathlib.Tactic

/-!
# I/O buffers

The memory seen from `data` onwards and the distance `tail - data`.  The memory goes on behind the
tail: nothing stops `iob_unput` from moving the tail *forwards* when its unsigned argument is the
wrapped image of a negative number.
-/

namespace Ipxe.Model

/-- An I/O buffer, seen from its data pointer. -/
structure IoBuffer where
  /-- the memory from `data` onwards, also behind the tail -/
  mem : ℕ → UInt8
  /-- `tail - data` -/
  len : ℕ

/-- The range of `size_t` and of pointer differences. -/
def sizeRange : ℕ := 2 ^ 32

/-- Unsigned subtraction on `size_t`. -/
@[irreducible] def sizeSub (a b : ℕ) : ℕ := (a + (sizeRange - b % sizeRange)) % sizeRange

/-- A frame handed up by the link layer: its bytes, as many as a `size_t` counts. -/
structure LlFrame where
  bytes : Bytes
  fits : bytes.length < sizeRange

namespace IoBuffer

variable (iobuf : IoBuffer)

/-- The bytes between the data pointer and the tail. -/
def bytes : Bytes := (List.range iobuf.len).map iobuf.mem

/-- Remove data from the start of an I/O buffer.
[include/ipxe/iobuf.h:97-106] -/
def iobPull (len : ℕ) : IoBuffer where
  mem := fun i => iobuf.mem (i + len)
  len := iobuf.len - len

/-- Remove data from the end of an I/O buffer: the tail pointer moves back by
`len`, modulo the pointer width.
[include/ipxe/iobuf.h:132-139] -/
def iobUnput (len : ℕ) : IoBuffer where
  mem := iobuf.mem
  len := sizeSub iobuf.len len

/-- A freshly allocated buffer holding `iobuf` followed by `other`. -/
def append (other : IoBuffer) : IoBuffer where
  mem := fun i => if i < iobuf.len then iobuf.mem i else other.mem (i - iobuf.len)
  len := iobuf.len + other.len

/-- The buffer that holds a received frame, in front of the memory `after`. -/
def ofFrame (frame : LlFrame) (after : ℕ → UInt8) : IoBuffer where
  mem := fun i => frame.bytes.getD i (after (i - frame.bytes.length))
  len := frame.bytes.length

end IoBuffer

end Ipxe.Model
