import Ipxe.Library.MultiWord
import Ipxe.Model.Platform

/-!
# SHA-256

`crypto/sha256.c`.  The digest and the data of a context are bytes in memory.  `sha256_digest`
converts both in place to the byte order of the host, which is little-endian, and only the digest
back.

Left out: debugging output, assertions and SHA-224.
-/

namespace Ipxe.Model

open Library

structure Sha256Variables where
  a : BitVec 32
  b : BitVec 32
  c : BitVec 32
  d : BitVec 32
  e : BitVec 32
  f : BitVec 32
  g : BitVec 32
  h : BitVec 32
  deriving DecidableEq

def Sha256Variables.words (v : Sha256Variables) : List (BitVec 32) :=
  [v.a, v.b, v.c, v.d, v.e, v.f, v.g, v.h]

structure Sha256Context where
  len : ℕ
  digestsize : ℕ
  digest : Bytes
  data : Bytes

def sha256K : List (BitVec 32) :=
  [0x428a2f98, 0x71374491, 0xb5c0fbcf, 0xe9b5dba5, 0x3956c25b, 0x59f111f1,
   0x923f82a4, 0xab1c5ed5, 0xd807aa98, 0x12835b01, 0x243185be, 0x550c7dc3,
   0x72be5d74, 0x80deb1fe, 0x9bdc06a7, 0xc19bf174, 0xe49b69c1, 0xefbe4786,
   0x0fc19dc6, 0x240ca1cc, 0x2de92c6f, 0x4a7484aa, 0x5cb0a9dc, 0x76f988da,
   0x983e5152, 0xa831c66d, 0xb00327c8, 0xbf597fc7, 0xc6e00bf3, 0xd5a79147,
   0x06ca6351, 0x14292967, 0x27b70a85, 0x2e1b2138, 0x4d2c6dfc, 0x53380d13,
   0x650a7354, 0x766a0abb, 0x81c2c92e, 0x92722c85, 0xa2bfe8a1, 0xa81a664b,
   0xc24b8b70, 0xc76c51a3, 0xd192e819, 0xd6990624, 0xf40e3585, 0x106aa070,
   0x19a4c116, 0x1e376c08, 0x2748774c, 0x34b0bcb5, 0x391c0cb3, 0x4ed8aa4a,
   0x5b9cca4f, 0x682e6ff3, 0x748f82ee, 0x78a5636f, 0x84c87814, 0x8cc70208,
   0x90befffa, 0xa4506ceb, 0xbef9a3f7, 0xc67178f2]

def cpuToBe32 (dword : BitVec 32) : Bytes := bigEndian 4 dword.toNat

def be32ToCpus : Bytes → Bytes
  | b0 :: b1 :: b2 :: b3 :: bytes => b3 :: b2 :: b1 :: b0 :: be32ToCpus bytes
  | bytes => bytes

def dwords : Bytes → List (BitVec 32)
  | b0 :: b1 :: b2 :: b3 :: bytes =>
    BitVec.ofNat 32 (bigEndianValue [b3, b2, b1, b0]) :: dwords bytes
  | _ => []

/-- See include/ipxe/rotate.h:17-18,46-49 -/
def ror32 (data : BitVec 32) (rotation : ℕ) : BitVec 32 :=
  data >>> rotation ||| data <<< (32 - rotation)

/-- Initialise SHA-256 algorithm, in a context with some data in its memory.
[74-112] -/
def sha256Init (memory : Vector UInt8 64) : Sha256Context where
  len := 0
  digestsize := 32
  digest := [0x6a09e667, 0xbb67ae85, 0x3c6ef372, 0xa54ff53a, 0x510e527f, 0x9b05688c, 0x1f83d9ab,
    0x5be0cd19].flatMap cpuToBe32
  data := memory.toList

def sha256Schedule (w : List (BitVec 32)) (i : ℕ) : List (BitVec 32) :=
  let w15 := w.getD (i - 15) 0
  let w2 := w.getD (i - 2) 0
  let s0 := ror32 w15 7 ^^^ ror32 w15 18 ^^^ (w15 >>> 3)
  let s1 := ror32 w2 17 ^^^ ror32 w2 19 ^^^ (w2 >>> 10)
  w ++ [w.getD (i - 16) 0 + s0 + w.getD (i - 7) 0 + s1]

def Sha256Variables.turn (v : Sha256Variables) (k w : BitVec 32) : Sha256Variables :=
  let s0 := ror32 v.a 2 ^^^ ror32 v.a 13 ^^^ ror32 v.a 22
  let maj := (v.a &&& v.b) ^^^ (v.a &&& v.c) ^^^ (v.b &&& v.c)
  let t2 := s0 + maj
  let s1 := ror32 v.e 6 ^^^ ror32 v.e 11 ^^^ ror32 v.e 25
  let ch := (v.e &&& v.f) ^^^ (~~~v.e &&& v.g)
  let t1 := v.h + s1 + ch + k + w
  { a := t1 + t2, b := v.a, c := v.b, d := v.c, e := v.d + t1, f := v.e, g := v.f, h := v.g }

/-- Calculate SHA-256 digest of accumulated data.
[119-207] -/
def sha256Digest (context : Sha256Context) : Sha256Context :=
  let digest := be32ToCpus context.digest
  let data := be32ToCpus context.data
  let h (i : ℕ) := (dwords digest).getD i 0
  let v : Sha256Variables := ⟨h 0, h 1, h 2, h 3, h 4, h 5, h 6, h 7⟩
  let w := (List.range' 16 48).foldl sha256Schedule (dwords data)
  let v := (List.range 64).foldl (fun v i => v.turn (sha256K.getD i 0) (w.getD i 0)) v
  { context with
    digest := (List.zipWith (· + ·) (dwords digest) v.words).flatMap cpuToBe32
    data := data }

variable (arch : Platform)

def sha256UpdateByte (context : Sha256Context) (byte : UInt8) : Sha256Context :=
  let context := { context with
    data := context.data.set (context.len % 64) byte
    len := (context.len + 1) % 2 ^ arch.sizeBits }
  if context.len % 64 = 0 then sha256Digest context else context

/-- Accumulate data with SHA-256 algorithm.
[216-231] -/
def sha256Update (context : Sha256Context) (data : Bytes) : Sha256Context :=
  data.foldl (sha256UpdateByte arch) context

theorem len_sha256UpdateByte (context : Sha256Context) (byte : UInt8) :
    (sha256UpdateByte arch context byte).len = (context.len + 1) % 2 ^ arch.sizeBits := by
  simp only [sha256UpdateByte]
  split_ifs <;> rfl

theorem mod_sizeBits_mod (n : ℕ) : n % 2 ^ arch.sizeBits % 64 = n % 64 :=
  Nat.mod_mod_of_dvd n (Nat.pow_dvd_pow 2 ((by decide : 6 ≤ 32).trans (le_sizeBits arch)))

/-- Pad with zeros up to the length. -/
def sha256Pad (arch : Platform) (context : Sha256Context) : Sha256Context :=
  if context.len % 64 ≠ 56 then sha256Pad arch (sha256Update arch context [0x00])
  else context
termination_by (120 - context.len % 64) % 64
decreasing_by
  rw [sha256Update, List.foldl_cons, List.foldl_nil, len_sha256UpdateByte, mod_sizeBits_mod]
  omega

/-- Generate SHA-256 digest.
[239-261] -/
def sha256Final (context : Sha256Context) : Bytes :=
  let lenBits := context.len * 8 % 2 ^ 64
  let context := sha256Pad arch (sha256Update arch context [0x80])
  let context := sha256Update arch context (bigEndian 8 lenBits)
  context.digest.take context.digestsize

end Ipxe.Model
