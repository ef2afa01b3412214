import Ipxe.Model.Platform

/-!
# Galois/Counter Mode

`crypto/gcm.c`.  A block is its 128 bits, byte 0 on the left.  The multiplication tables are one
static cache, used for whichever hash key it was made for last; a key is known by its address.  The
underlying block cipher is an argument.
-/

namespace Ipxe.Model

/-- See include/ipxe/gcm.h:31-43 -/
abbrev GcmBlock := BitVec 128

/-- A byte at a place of a block. -/
def byteAt (index : ℕ) (byte : UInt8) : GcmBlock := byte.toBitVec.setWidth 128 <<< (8 * (15 - index))

/-- The bytes from a place on, and zeros elsewhere. -/
def bytesFrom : ℕ → Bytes → GcmBlock
  | _, [] => 0
  | index, byte :: bytes => byteAt index byte ^^^ bytesFrom (index + 1) bytes

/-- The block that begins with some bytes, and is zero behind them. -/
def bytesBlock (bytes : Bytes) : GcmBlock := bytesFrom 0 bytes

def blockByte (block : GcmBlock) (index : ℕ) : UInt8 := ⟨block.extractLsb' (8 * (15 - index)) 8⟩

def blockBytes (block : GcmBlock) : Bytes := (List.range 16).map (blockByte block)

def lengthsBlock (add data : BitVec 64) : GcmBlock := add ++ data

/-! ## Tables -/

/-- See 81 -/
def gcmPoly : UInt8 := 0xe1

/-- Reverse bits in a byte.  [122-134] -/
def gcmReverse (byte : UInt8) : UInt8 :=
  let masks : Bytes := [1, 2, 4, 8, 0x10, 0x20, 0x40, 0x80]
  masks.foldl (fun etyb mask => etyb <<< 1 ||| if byte &&& mask ≠ 0 then 1 else 0) 0

/-- Swap the bytes of a 16-bit number, which is what `be16_to_cpu` and `cpu_to_be16` do. -/
def bswap16 (value : UInt16) : UInt16 := value <<< 8 ||| value >>> 8

/-- Update GCM counter.  [142-149] -/
def gcmCount (ctr : GcmBlock) (delta : BitVec 32) : GcmBlock :=
  (ctr.extractLsb' 32 96 ++ (ctr.setWidth 32 + delta) : BitVec (96 + 32))

/-- XOR partial data block.  [159-169] -/
def gcmXor (src1 src2 : Bytes) : Bytes := List.zipWith (· ^^^ ·) src1 src2

/-- XOR partial data block into the beginning of a block. -/
def gcmXorInto (src : Bytes) (dst : GcmBlock) : GcmBlock := dst ^^^ bytesBlock src

/-- Multiply polynomial by (x).  [193-209] -/
def gcmMultiplyX (mult : GcmBlock) : GcmBlock :=
  (mult >>> 1) ^^^ if mult.getLsbD 0 then byteAt 0 gcmPoly else 0

/-- The static tables: `M0` and, in the byte order of memory, `R`.
[98-113] -/
structure GcmTables where
  mult : UInt8 → GcmBlock
  reduce : UInt8 → UInt16

def gcmCacheEntry (key : GcmBlock) (tables : GcmTables) (i : ℕ) : GcmTables :=
  let this := gcmReverse (UInt8.ofNat i)
  if this &&& 0x80 ≠ 0 then
    let other := this &&& 0x7f
    { mult := Function.update tables.mult this (key ^^^ tables.mult other)
      reduce := Function.update tables.reduce this
        (tables.reduce other ^^^ bswap16 (gcmPoly.toUInt16 <<< 8)) }
  else
    let other := this <<< 1
    { mult := Function.update tables.mult this (gcmMultiplyX (tables.mult other))
      reduce := Function.update tables.reduce this
        (bswap16 (bswap16 (tables.reduce other) >>> 1)) }

def gcmCacheTables (key : GcmBlock) (tables : GcmTables) : GcmTables :=
  (List.range' 1 255).foldl (gcmCacheEntry key) tables

/-- The cache: the address of the key it was made for, and the tables.
[83-113] -/
structure GcmCache where
  key : Option ℕ
  tables : GcmTables

variable (address : ℕ)

/-- Construct cached tables.  [217-260] -/
def gcmCache (key : GcmBlock) (cache : GcmCache) : GcmCache :=
  { key := some address, tables := gcmCacheTables key cache.tables }

/-- Multiply polynomial by (x^8).  [267-285] -/
def gcmMultiplyX8 (tables : GcmTables) (poly : GcmBlock) : GcmBlock :=
  let msb := blockByte poly 15
  (poly >>> 8) ^^^ ((bswap16 (tables.reduce msb)).toBitVec.setWidth 128 <<< 112)

/-- The multiplication of `gcm_multiply_key`, from the last byte to the first. -/
def gcmMultiplyTables (tables : GcmTables) (poly : GcmBlock) : GcmBlock :=
  (List.range 15).foldr
    (fun index res => gcmMultiplyX8 tables res ^^^ tables.mult (blockByte poly index))
    (tables.mult (blockByte poly 15))

/-- Multiply polynomial by hash key.  [293-312] -/
def gcmMultiplyKey (key : GcmBlock) (cache : GcmCache) (poly : GcmBlock) : GcmCache × GcmBlock :=
  let cache := if cache.key ≠ some address then gcmCache address key cache else cache
  (cache, gcmMultiplyTables cache.tables poly)

/-! ## Contexts -/

/-- The underlying block cipher. -/
structure RawCipher (Raw : Type) where
  setkey : Bytes → Except Errno Raw
  encrypt : Raw → GcmBlock → GcmBlock

/-- See include/ipxe/gcm.h:45-59 -/
structure GcmContext (Raw : Type) where
  hash : GcmBlock
  lenAdd : BitVec 64
  lenData : BitVec 64
  ctr : GcmBlock
  key : GcmBlock
  rawCtx : Raw

/-- Perform encryption.  [46] -/
def gcmFlEncrypt : ℕ := 0x00ff

/-- Calculate hash over an initialisation vector value.  [55] -/
def gcmFlIv : ℕ := 0x0100

variable {Raw : Type}

/-- What the functions on a context act on, and what they have written. -/
structure GcmWork (Raw : Type) where
  cache : GcmCache
  context : GcmContext Raw
  dst : Bytes := []

variable (cipher : RawCipher Raw)

/-- A turn of the loop of `gcm_process`: `hasDst` tells whether `dst` is not `NULL`. -/
def gcmFragment (address flags : ℕ) (hasDst : Bool) (work : GcmWork Raw)
    (frag : Bytes) : GcmWork Raw :=
  let context := { work.context with hash := gcmXorInto frag work.context.hash }
  let work :=
    if hasDst then
      let context := { context with ctr := gcmCount context.ctr 1 }
      let tmp := cipher.encrypt context.rawCtx context.ctr
      { work with
        context := { context with
          hash := gcmXorInto ((blockBytes tmp).take (frag.length &&& flags)) context.hash }
        dst := work.dst ++ gcmXor frag (blockBytes tmp) }
    else { work with context }
  let product := gcmMultiplyKey address work.context.key work.cache work.context.hash
  { work with cache := product.1, context := { work.context with hash := product.2 } }

/-- The loop of `gcm_process`, which takes a byte at least in every turn. -/
def gcmFragments (cipher : RawCipher Raw) (address flags : ℕ) (hasDst : Bool) :
    ℕ → GcmWork Raw → Bytes → GcmWork Raw
  | 0, work, _ => work
  | fuel + 1, work, src =>
    if src = [] then work
    else
      gcmFragments cipher address flags hasDst fuel
        (gcmFragment cipher address flags hasDst work (src.take 16)) (src.drop 16)

variable (arch : Platform)

/-- Encrypt/decrypt/authenticate data.  The length in bits is a `size_t` before it is added.
[322-376] -/
def gcmProcess (cipher : RawCipher Raw) (address flags : ℕ) (hasDst : Bool)
    (work : GcmWork Raw) (src : Bytes) : GcmWork Raw :=
  let bits := BitVec.ofNat 64 (src.length * 8 % 2 ^ arch.sizeBits)
  let context :=
    if hasDst ∨ flags &&& gcmFlIv ≠ 0 then
      { work.context with lenData := work.context.lenData + bits }
    else { work.context with lenAdd := work.context.lenAdd + bits }
  gcmFragments cipher address flags hasDst src.length { work with context } src

/-- Construct hash.  [384-398] -/
def gcmHash (cache : GcmCache) (context : GcmContext Raw) : GcmCache × GcmBlock :=
  gcmMultiplyKey address context.key cache
    (lengthsBlock context.lenAdd context.lenData ^^^ context.hash)

/-- Construct tag.  [406-427] -/
def gcmTag (address : ℕ) (cache : GcmCache) (context : GcmContext Raw) : GcmCache × GcmBlock :=
  let hash := gcmHash address cache context
  let offset := (-context.lenData / 128#64).setWidth 32
  (hash.1, hash.2 ^^^ cipher.encrypt context.rawCtx (gcmCount context.ctr offset))

/-- The counter of a context that was reset. -/
def gcmResetCtr : GcmBlock := 1

/-- Set key.  If the cipher refuses the key, the context is left cleared, and the cache as it
was.  [438-465] -/
def gcmSetkey (address : ℕ) (cache : GcmCache) (context : GcmContext Raw)
    (key : Bytes) : GcmCache × GcmContext Raw × Option Errno :=
  let cleared := { context with hash := 0, lenAdd := 0, lenData := 0, ctr := 0, key := 0 }
  match cipher.setkey key with
  | .error error => (cache, cleared, some error)
  | .ok rawCtx =>
    let hashKey := cipher.encrypt rawCtx 0
    (gcmCache address hashKey cache,
      { cleared with rawCtx, key := hashKey, ctr := gcmResetCtr }, none)

/-- Set initialisation vector.  [474-511] -/
def gcmSetiv (cipher : RawCipher Raw) (address : ℕ) (cache : GcmCache)
    (context : GcmContext Raw) (iv : Bytes) : GcmCache × GcmContext Raw :=
  let context := { context with hash := 0, lenAdd := 0, lenData := 0, ctr := gcmResetCtr }
  if iv.length = 12 then
    (cache, { context with ctr := gcmXorInto iv context.ctr })
  else
    let work := gcmProcess arch cipher address gcmFlIv false { cache, context } iv
    let hash := gcmHash address work.cache work.context
    (hash.1, { work.context with hash := 0, lenAdd := 0, lenData := 0, ctr := hash.2 })

/-- Encrypt data.  [521-526] -/
def gcmEncrypt (cipher : RawCipher Raw) (address : ℕ) (hasDst : Bool)
    (work : GcmWork Raw) (src : Bytes) : GcmWork Raw :=
  gcmProcess arch cipher address gcmFlEncrypt hasDst work src

/-- Decrypt data.  [536-541] -/
def gcmDecrypt (cipher : RawCipher Raw) (address : ℕ) (hasDst : Bool)
    (work : GcmWork Raw) (src : Bytes) : GcmWork Raw :=
  gcmProcess arch cipher address 0 hasDst work src

end Ipxe.Model
