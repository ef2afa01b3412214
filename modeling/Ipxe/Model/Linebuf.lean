import Mathlib.Data.List.DropRight
import Ipxe.Model.Platform

/-!
# Line buffering

`core/linebuf.c`.  The buffered data is without the NUL behind its end.  Whether memory can be
allocated is an argument; lengths that are no `int` exceed the heap.
-/

namespace Ipxe.Model

structure LineBuffer where
  data : Bytes := []
  consumed : ℕ := 0

/-- Retrieve buffered-up line.
[45-58] -/
def bufferedLine (linebuf : LineBuffer) : Option Bytes :=
  if linebuf.consumed = 0 ∨ linebuf.data.getLast? ≠ some 0 then none
  else some (linebuf.data.dropLast.rtakeWhile (· ≠ 0))

/-- Overwrite trailing LF, trim (and overwrite) trailing CR, if present.
[120-137] -/
def terminateLine (data : Bytes) : Bytes :=
  let data := data.set (data.length - 1) 0
  if 1 < data.length ∧ data[data.length - 2]? = some 0x0d then
    (data.take (data.length - 1)).set (data.length - 2) 0
  else data

/-- Buffer up received data by lines.
[91-143] -/
def lineBuffer (linebuf : LineBuffer) (data : Bytes) (allocated : Bool) :
    Except Errno ℕ × LineBuffer :=
  let consume := if 0x0a ∈ data then data.idxOf 0x0a + 1 else data.length
  -- reject any embedded NULs within the data to be consumed
  if 0 ∈ data.take consume then (.error .einval, linebuf)
  else if !allocated then (.error .enomem, linebuf)
  else
    let newData := linebuf.data ++ data.take consume
    (.ok consume,
      { data := if 0x0a ∈ data then terminateLine newData else newData, consumed := consume })

end Ipxe.Model
