import Ipxe.Library.Chunks
import Ipxe.Model.Sha256

/-!
# The secure hash standard

SHA-256 as the standard has it.  The constants are bits of roots of primes.  The standard counts
the bits of a message in sixty-four bits, and the count is taken modulo that here.
-/

namespace Ipxe.Interface

open Library Model

/-- The primes below 312, which are the first sixty-four. -/
def firstPrimes : List ℕ := (List.range 312).filter fun n => 2 ≤ n ∧ ∀ d < n, d ∣ n → d = 1

/-- The whole part of a root, times `2 ^ 32`, bit by bit from the highest. -/
def scaledRoot (degree n : ℕ) : ℕ :=
  (List.range 36).foldr (fun i root =>
    if (root + 2 ^ i) ^ degree ≤ n * 2 ^ (32 * degree) then root + 2 ^ i else root) 0

/-- The first thirty-two bits of the fractional part of a root of a prime. -/
def rootFraction (degree index : ℕ) : BitVec 32 :=
  BitVec.ofNat 32 (scaledRoot degree (firstPrimes.getD index 0))

def initialHash : Sha256Variables where
  a := rootFraction 2 0
  b := rootFraction 2 1
  c := rootFraction 2 2
  d := rootFraction 2 3
  e := rootFraction 2 4
  f := rootFraction 2 5
  g := rootFraction 2 6
  h := rootFraction 2 7

section

variable (x y z : BitVec 32)

def choice : BitVec 32 := (x &&& y) ^^^ (~~~x &&& z)

def majority : BitVec 32 := (x &&& y) ^^^ (x &&& z) ^^^ (y &&& z)

def bigSigma0 : BitVec 32 := x.rotateRight 2 ^^^ x.rotateRight 13 ^^^ x.rotateRight 22

def bigSigma1 : BitVec 32 := x.rotateRight 6 ^^^ x.rotateRight 11 ^^^ x.rotateRight 25

def smallSigma0 : BitVec 32 := x.rotateRight 7 ^^^ x.rotateRight 18 ^^^ (x >>> 3)

def smallSigma1 : BitVec 32 := x.rotateRight 17 ^^^ x.rotateRight 19 ^^^ (x >>> 10)

end

def bigEndianWords : Bytes → List (BitVec 32)
  | b0 :: b1 :: b2 :: b3 :: bytes =>
    BitVec.ofNat 32 (bigEndianValue [b0, b1, b2, b3]) :: bigEndianWords bytes
  | _ => []

def scheduleWord (block : Bytes) (t : ℕ) : BitVec 32 :=
  if t < 16 then (bigEndianWords block).getD t 0
  else smallSigma1 (scheduleWord block (t - 2)) + scheduleWord block (t - 7) +
    smallSigma0 (scheduleWord block (t - 15)) + scheduleWord block (t - 16)

def hashRound (v : Sha256Variables) (k w : BitVec 32) : Sha256Variables :=
  let t1 := v.h + bigSigma1 v.e + choice v.e v.f v.g + k + w
  let t2 := bigSigma0 v.a + majority v.a v.b v.c
  { a := t1 + t2, b := v.a, c := v.b, d := v.c, e := v.d + t1, f := v.e, g := v.f, h := v.g }

/-- The hash value behind a block. -/
def hashBlock (hash : Sha256Variables) (block : Bytes) : Sha256Variables :=
  let v := (List.range 64).foldl
    (fun v t => hashRound v (rootFraction 3 t) (scheduleWord block t)) hash
  { a := v.a + hash.a, b := v.b + hash.b, c := v.c + hash.c, d := v.d + hash.d
    e := v.e + hash.e, f := v.f + hash.f, g := v.g + hash.g, h := v.h + hash.h }

/-- A one bit, zeros up to the length, and the length in bits. -/
def paddedMessage (message : Bytes) : Bytes :=
  message ++ [0x80] ++ List.replicate ((119 - message.length % 64) % 64) 0x00 ++
    bigEndian 8 (8 * message.length)

def hashWords (blocks : Bytes) : Sha256Variables := (chunks 64 blocks).foldl hashBlock initialHash

def secureHash256 (message : Bytes) : Bytes :=
  (hashWords (paddedMessage message)).words.flatMap fun word => bigEndian 4 word.toNat

end Ipxe.Interface
