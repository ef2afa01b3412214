import Ipxe.Model.Platform

/-!
# The commands `md5sum` and `crc32`

Both hash a file piece by piece, up to the number of bytes that `-n` gives.  What `fs_read` returns
is given for each turn: at most so many bytes, or an error.
-/

namespace Ipxe.Model

def FILEBUFSIZE : ℕ := 65536

/-- What is read at the offset of a file, unless there is an error; at its end nothing is.
[core/grub/kern/file.c:147-189] -/
def grubFileReadAt (content : Bytes) (offset len : ℕ) (fsRead : Option ℕ) : Option Bytes :=
  let len := min len (content.length - offset)
  if len = 0 then some [] else fsRead.map fun count => (content.drop offset).take (min count len)

/-- How many bytes are to be hashed; a number of zero is like none.
[core/grub/kern/ipxe_grub.c:1272-1277,1294-1297,1347-1352,1369-1372] -/
def dstlen (arch : Platform) (n : Option ℕ) (size : ℕ) : ℕ :=
  let dstlen := n.getD 0 % 2 ^ arch.sizeBits
  if dstlen = 0 then size else dstlen

inductive DigestEnd where
  | hashed (bytes : Bytes)
  /-- the hash goes on behind the buffer for `( grub_size_t ) -1` bytes -/
  | astray
  deriving DecidableEq

/-- The loop for at most so many turns, with the bytes that have been hashed.
[core/grub/kern/ipxe_grub.c:1301-1314,1374-1387] -/
def digestLoop (content : Bytes) (fsRead : ℕ → Option ℕ) (dstlen : ℕ) :
    ℕ → ℕ → Bytes → Option DigestEnd
  | 0, _, _ => none
  | turns + 1, turn, bytes =>
    if bytes.length < dstlen then
      match grubFileReadAt content bytes.length (min FILEBUFSIZE (dstlen - bytes.length))
          (fsRead turn) with
      | none => some .astray
      | some buf => digestLoop content fsRead dstlen turns (turn + 1) (bytes ++ buf)
    else some (.hashed bytes)

end Ipxe.Model
