import Ipxe.Library.Resumable
import Ipxe.Model.Platform

/-!
# DEFLATE decompression

`crypto/deflate.c`.  A label of the decompressor is a step of a machine (`deflateStep`), and a call
takes steps until the machine waits for input or stops.  The steps read through the operations of
a `BitSource`; the program has `inputSource`, a pair of accumulators, one of them bit-reversed, and
the rest of the chunk.  An index outside of a table reads zero.

Left out: debugging output, assertions, and `size_t` going round.
-/

namespace Ipxe.Model

open Library

/-! ## Tables of `deflate_init`
[50-90,999-1050] -/

def deflateReverse (i : ℕ) : ℕ :=
  [1, 2, 4, 8, 16, 32, 64, 128].foldl
    (fun byte bit => byte <<< 1 ||| if i &&& bit ≠ 0 then 1 else 0) 0

def litlenExtraBits (extra : ℕ) : ℕ :=
  let bits := extra / 4
  if bits ≠ 0 then bits - 1 else bits

def distanceExtraBits (extra : ℕ) : ℕ :=
  let bits := extra / 2
  if bits ≠ 0 then bits - 1 else bits

/-- The bases of `n` codes, each of which takes as many values as its extra bits have. -/
def extraBases (extraBits : ℕ → ℕ) : ℕ → ℕ → ℕ → List ℕ
  | 0, _, _ => []
  | n + 1, i, base => base :: extraBases extraBits n (i + 1) (base + 1 <<< extraBits i)

def deflateLitlenBase : List ℕ := extraBases litlenExtraBits 28 0 3

/-- Entries 30 and 31 are never initialised. -/
def deflateDistanceBase : List ℕ := extraBases distanceExtraBits 30 0 1 ++ [0, 0]

def deflateCodelenMap : List ℕ := [16, 17, 18, 0, 8, 7, 9, 6, 10, 5, 11, 4, 12, 3, 13, 2, 14, 1, 15]

/-- `fill` and `count` of the patterns, up to the end marker. -/
def deflateStaticLengthPatterns : List (ℕ × ℕ) :=
  [(0x88, (143 - 0 + 1) / 2), (0x99, (255 - 144 + 1) / 2), (0x77, (279 - 256 + 1) / 2),
    (0x88, (287 - 280 + 1) / 2), (0x55, (31 - 0 + 1) / 2)]

def deflateHuffmanBits : ℕ := 15
def deflateHuffmanQlBits : ℕ := 7
def deflateHuffmanQlShift : ℕ := 16 - deflateHuffmanQlBits
def deflateLitlenEnd : ℕ := 256
def deflateLitlenMaxCode : ℕ := 287
def deflateDistanceMaxCode : ℕ := 31
def deflateCodelenMaxCode : ℕ := 18

/-! ## Code lengths
[110-135] -/

def deflateLengthsSize : ℕ := (deflateLitlenMaxCode + 1 + (deflateDistanceMaxCode + 1) + 1) / 2

variable (lengths : List ℕ)

def deflateSetLength (index bits : ℕ) : List ℕ :=
  lengths.modify (index / 2) fun byte => (byte ||| bits <<< (4 * (index % 2))) % 256

def deflateLength (index : ℕ) : ℕ :=
  (lengths.getD (index / 2) 0 >>> (4 * (index % 2))) &&& 0x0f

/-! ## Huffman alphabets
[include/ipxe/deflate.h:112-147, crypto/deflate.c:213-297] -/

/-- `struct deflate_huf_symbols`; `raw` is an index of the alphabet's raw symbols. -/
structure HufSymbols where
  bits : ℕ := 0
  shift : ℕ := 0
  freq : ℕ := 0
  start : ℕ := 0
  raw : ℤ := 0
  deriving DecidableEq

structure Alphabet where
  huf : List HufSymbols
  lookup : List ℕ
  raw : List ℕ
  deriving DecidableEq

/-- An alphabet as `deflate_init` leaves it. -/
def Alphabet.zeroed (count : ℕ) : Alphabet where
  huf := List.replicate deflateHuffmanBits {}
  lookup := List.replicate (1 <<< deflateHuffmanQlBits) 0
  raw := List.replicate count 0

def countSymbols (count offset : ℕ) : List HufSymbols :=
  (List.range count).foldl (fun huf raw =>
    let bits := deflateLength lengths (raw + offset)
    if bits ≠ 0 then
      huf.modify (bits - 1) fun hufSym => { hufSym with freq := hufSym.freq + 1 }
    else huf) (List.replicate deflateHuffmanBits {})

/-- Populate the symbol table from length `bits` on.  The second value is `huf` at the end, or
nothing if there are too many symbols. -/
def populateHuf : (bits huf cumFreq : ℕ) → List HufSymbols → List HufSymbols × Option ℕ
  | _, huf, _, [] => ([], some huf)
  | bits, huf, cumFreq, hufSym :: rest =>
    let hufSym :=
      { hufSym with
        bits := bits
        shift := 16 - bits
        start := huf <<< (16 - bits)
        raw := cumFreq }
    if 1 <<< bits < huf + hufSym.freq then (hufSym :: rest, none)
    else
      let populated :=
        populateHuf (bits + 1) ((huf + hufSym.freq) <<< 1) (cumFreq + hufSym.freq) rest
      (hufSym :: populated.1, populated.2)

/-- Populate the raw symbols, moving the `raw` pointers along. -/
def populateRaw (count offset : ℕ) (huf : List HufSymbols) (raws : List ℕ) :
    List HufSymbols × List ℕ :=
  (List.range count).foldl (fun (huf, raws) raw =>
    let bits := deflateLength lengths (raw + offset)
    if bits ≠ 0 then
      (huf.modify (bits - 1) fun hufSym => { hufSym with raw := hufSym.raw + 1 },
        raws.set (huf.getD (bits - 1) {}).raw.toNat raw)
    else (huf, raws)) (huf, raws)

/-- Reset the `raw` pointer to the first symbol and adjust it for quick indexing. -/
def adjustRaw (hufSym : HufSymbols) : HufSymbols :=
  { hufSym with raw := hufSym.raw - hufSym.freq - (hufSym.start >>> hufSym.shift : ℕ) }

/-- All prefixes from that of the first symbol on. -/
def fillLookup (lookup : List ℕ) (hufSym : HufSymbols) : List ℕ :=
  let first := hufSym.start >>> deflateHuffmanQlShift
  lookup.take first ++ List.replicate (1 <<< deflateHuffmanQlBits - first) (hufSym.bits - 1)

variable (alphabet : Alphabet)

def deflateAlphabet (count offset : ℕ) : Alphabet × Except Errno Unit :=
  match populateHuf 1 0 0 (countSymbols lengths count offset) with
  | (huf, none) => ({ alphabet with huf := huf }, .error .einval)
  | (huf, some last) =>
    let complete := last = 1 <<< (deflateHuffmanBits + 1)
    let populated := populateRaw lengths count offset huf alphabet.raw
    let alphabet : Alphabet :=
      { huf := populated.1.map adjustRaw
        lookup := populated.1.foldl fillLookup alphabet.lookup
        raw := populated.2 }
    if complete then (alphabet, .ok ()) else (alphabet, .error .einval)

/-- The symbols of the longest length whose first symbol is not behind `huf`, from an index
downwards. -/
def searchDown (huf : ℕ) (table : List HufSymbols) : ℕ → HufSymbols
  | 0 => table.getD 0 {}
  | index + 1 =>
    if huf < (table.getD (index + 1) {}).start then searchDown huf table index
    else table.getD (index + 1) {}

/-- Find the symbol set for the sixteen bits at the front of the input. -/
def Alphabet.find (huf : ℕ) : HufSymbols :=
  searchDown huf alphabet.huf (alphabet.lookup.getD (huf >>> deflateHuffmanQlShift) 0)

def Alphabet.rawAt (hufSym : HufSymbols) (code : ℕ) : ℕ :=
  alphabet.raw.getD (hufSym.raw + code).toNat 0

/-! ## Input
[307-447] -/

/-- Operations by which the decompressor reads.  An operation that may have to wait gives
nothing then. -/
structure BitSource (σ : Type) where
  extract : ℕ → σ → Option ℕ × σ
  decode : Alphabet → σ → Option ℕ × σ
  accumulate : ℕ → σ → Option Unit × σ
  discardToByte : σ → σ
  /-- as much of the data of a literal block as there is -/
  literal : ℕ → σ → Bytes × σ

/-- The accumulators, and the bytes of `in` from its offset on. -/
structure DeflateInput where
  accumulator : ℕ
  rotalumucca : ℕ
  bits : ℕ
  bytes : Bytes

namespace DeflateInput

def addByte (input : DeflateInput) (byte : UInt8) (rest : Bytes) : DeflateInput where
  accumulator := (input.accumulator ||| byte.toNat <<< input.bits) % 2 ^ 32
  rotalumucca := (input.rotalumucca ||| deflateReverse byte.toNat <<< (24 - input.bits)) % 2 ^ 32
  bits := input.bits + 8
  bytes := rest

/-- `deflate_accumulate`, up to `target` bits or to the end of the chunk. -/
def accumulateFrom (target : ℕ) : Bytes → DeflateInput → DeflateInput
  | [], input => input
  | byte :: rest, input =>
    if input.bits < target then accumulateFrom target rest (input.addByte byte rest) else input

def deflateAccumulate (target : ℕ) (input : DeflateInput) : DeflateInput :=
  accumulateFrom target input.bytes input

def deflateConsume (count : ℕ) (input : DeflateInput) : ℕ × DeflateInput :=
  (input.accumulator &&& (1 <<< count - 1),
    { input with
      accumulator := input.accumulator >>> count
      rotalumucca := (input.rotalumucca <<< count) % 2 ^ 32
      bits := input.bits - count })

def deflateExtract (target : ℕ) (input : DeflateInput) : Option ℕ × DeflateInput :=
  if target = 0 then (some 0, input)
  else
    let input := input.deflateAccumulate target
    if input.bits < target then (none, input)
    else (some (input.deflateConsume target).1, (input.deflateConsume target).2)

def deflateDecode (alphabet : Alphabet) (input : DeflateInput) : Option ℕ × DeflateInput :=
  let input := input.deflateAccumulate deflateHuffmanBits
  let huf := input.rotalumucca >>> 16
  let hufSym := alphabet.find huf
  if input.bits < hufSym.bits then (none, input)
  else
    (some (alphabet.rawAt hufSym (huf >>> hufSym.shift)), (input.deflateConsume hufSym.bits).2)

def deflateDiscardToByte (input : DeflateInput) : DeflateInput :=
  (input.deflateConsume (input.bits &&& 7)).2

end DeflateInput

def inputSource : BitSource DeflateInput where
  extract := DeflateInput.deflateExtract
  decode := DeflateInput.deflateDecode
  accumulate target input :=
    let input := input.deflateAccumulate target
    (if input.bits < target then none else some (), input)
  discardToByte := DeflateInput.deflateDiscardToByte
  literal len input := (input.bytes.take len, { input with bytes := input.bytes.drop len })

/-! ## Output
[include/ipxe/deflate.h:219-238, crypto/deflate.c:457-472] -/

/-- `struct deflate_chunk`; its length is that of `data`. -/
structure DeflateChunk where
  data : Bytes
  offset : ℕ := 0
  deriving DecidableEq

/-- One byte at a time, `read` being what the source holds by then. -/
def copyBytes (read : Bytes → ℕ → UInt8) : (len outOffset offset : ℕ) → Bytes → Bytes
  | 0, _, _, data => data
  | len + 1, outOffset, offset, data =>
    copyBytes read len (outOffset + 1) (offset + 1) (data.set outOffset (read data offset))

def deflateCopy (out : DeflateChunk) (read : Bytes → ℕ → UInt8) (offset len : ℕ) :
    DeflateChunk where
  data :=
    if out.offset < out.data.length then
      copyBytes read (min (out.data.length - out.offset) len) out.offset offset out.data
    else out.data
  offset := out.offset + len

/-- Copy from a buffer other than the output. -/
def readFrom (bytes : Bytes) : Bytes → ℕ → UInt8 := fun _ offset => bytes.getD offset 0

def readBack : Bytes → ℕ → UInt8 := fun data offset => data.getD offset 0

/-! ## The decompressor
[include/ipxe/deflate.h:18-24,149-217] -/

inductive DeflateFormat where
  | raw
  | zlib
  deriving DecidableEq

/-- The labels of `deflate_inflate`; `dynamic_block` is `dynamic_header`. -/
inductive DeflateLabel where
  | zlibHeader
  | blockHeader
  | literalBlock
  | literalLen
  | literalNlen
  | literalData
  | staticBlock
  | dynamicHeader
  | dynamicCodelen
  | dynamicLitlenDistance
  | dynamicLitlenDistanceExtra
  | constructAlphabets
  | lzhufLitlen
  | lzhufLitlenExtra
  | lzhufDistance
  | lzhufDistanceExtra
  | blockDone
  | zlibFooter
  | zlibAdler32
  | finished
  deriving DecidableEq

/-- The fields of `struct deflate` that do not hold input. -/
structure DeflateRegs where
  format : DeflateFormat
  header : ℕ := 0
  remaining : ℕ := 0
  lengthIndex : ℕ := 0
  lengthTarget : ℕ := 0
  length : ℕ := 0
  extraBits : ℕ := 0
  dupLen : ℕ := 0
  dupDistance : ℕ := 0
  litlen : Alphabet := Alphabet.zeroed (deflateLitlenMaxCode + 1)
  litlenCount : ℕ := 0
  distanceCodelen : Alphabet := Alphabet.zeroed (deflateDistanceMaxCode + 1)
  distanceCount : ℕ := 0
  lengths : List ℕ := List.replicate deflateLengthsSize 0

structure Deflate extends DeflateRegs where
  resume : Option DeflateLabel := none
  accumulator : ℕ := 0
  rotalumucca : ℕ := 0
  bits : ℕ := 0

def deflateInit (format : DeflateFormat) : Deflate where
  format := format

variable (deflate : Deflate)

def deflateFinished : Bool := deflate.resume.isNone

/-- A call under way: the label it is at, the registers and the output. -/
structure Inflater extends DeflateRegs where
  label : DeflateLabel
  out : DeflateChunk

/-! ## The labels
[507-990] -/

abbrev DeflateOutcome (σ : Type) : Type := Outcome Inflater σ (Except Errno Unit)

namespace Inflater

open Outcome

variable {σ : Type} (src : BitSource σ) (c : Inflater) (s : σ)

def goto (label : DeflateLabel) : DeflateOutcome σ := .next { c with label := label } s

def fail (rc : Errno) : DeflateOutcome σ := .halt (.stopped (.error rc) c s)

def zlibHeader : DeflateOutcome σ :=
  await c (src.extract 16 s) fun header s =>
    let cm := header >>> 0 &&& 0x0f
    if cm ≠ 8 then c.fail s .enotsup
    else if header &&& 1 <<< 13 ≠ 0 then c.fail s .enotsup
    else c.goto s .blockHeader

def blockHeader : DeflateOutcome σ :=
  await c (src.extract 3 s) fun header s =>
    let c := { c with header := header }
    match header >>> 1 with
    | 0 => c.goto s .literalBlock
    | 1 => c.goto s .staticBlock
    | 2 => c.goto s .dynamicHeader
    | _ => c.fail s .enotsup

def literalBlock : DeflateOutcome σ := c.goto (src.discardToByte s) .literalLen

def literalLen : DeflateOutcome σ :=
  await c (src.extract 16 s) fun len s =>
    { c with remaining := len }.goto s .literalNlen

def literalNlen : DeflateOutcome σ :=
  await c (src.extract 16 s) fun nlen s =>
    -- `nlen ^^^ 0xffff` is the part of `~nlen` that the mask lets through
    if (c.remaining ^^^ (nlen ^^^ 0xffff)) &&& (1 <<< 16 - 1) ≠ 0 then c.fail s .einval
    else c.goto s .literalData

def literalData : DeflateOutcome σ :=
  let (bytes, s) := src.literal c.remaining s
  let c :=
    { c with
      out := deflateCopy c.out (readFrom bytes) 0 bytes.length
      remaining := c.remaining - bytes.length }
  if c.remaining ≠ 0 then .halt (.waiting c s) else c.goto s .blockDone

/-- The bytes that `memset` leaves for the patterns. -/
def staticLengths : List ℕ :=
  deflateStaticLengthPatterns.flatMap fun (fill, count) => List.replicate count fill

def staticBlock : DeflateOutcome σ :=
  { c with
    lengths := staticLengths ++ c.lengths.drop staticLengths.length
    litlenCount := 288
    distanceCount := 32 }.goto s .constructAlphabets

def dynamicHeader : DeflateOutcome σ :=
  await c (src.extract 14 s) fun header s =>
    let hlit := header >>> 0 &&& 0x1f
    let hdist := header >>> 5 &&& 0x1f
    let hclen := header >>> 10 &&& 0x0f
    { c with
      litlenCount := hlit + 257
      distanceCount := hdist + 1
      lengthIndex := 0
      lengthTarget := hclen + 4
      lengths := List.replicate deflateLengthsSize 0 }.goto s .dynamicCodelen

/-- One turn of the loop over the code lengths, or what comes behind the loop. -/
def dynamicCodelen : DeflateOutcome σ :=
  if c.lengthIndex < c.lengthTarget then
    await c (src.extract 3 s) fun len s =>
      let index := deflateCodelenMap.getD c.lengthIndex 0
      { c with
        lengthIndex := c.lengthIndex + 1
        lengths := deflateSetLength c.lengths index len }.goto s .dynamicCodelen
  else
    match deflateAlphabet c.lengths c.distanceCodelen (deflateCodelenMaxCode + 1) 0 with
    | (alphabet, .error rc) => { c with distanceCodelen := alphabet }.fail s rc
    | (alphabet, .ok ()) =>
      { c with
        distanceCodelen := alphabet
        lengths := List.replicate deflateLengthsSize 0
        lengthIndex := 0
        lengthTarget := c.litlenCount + c.distanceCount
        length := 0 }.goto s .dynamicLitlenDistance

def dynamicLitlenDistance : DeflateOutcome σ :=
  await c (src.decode c.distanceCodelen s) fun len s =>
    let c :=
      if len < 16 then { c with length := len, extraBits := 0, dupLen := 1 }
      else
        let index := len - 16
        { c with
          dupLen := [3, 3, 11].getD index 0
          extraBits := [2, 3, 7].getD index 0
          length := if index ≠ 0 then 0 else c.length }
    c.goto s .dynamicLitlenDistanceExtra

/-- Store up to `dupLen` code lengths: the index and the lengths afterwards. -/
def storeLengths (length target : ℕ) : (dupLen index : ℕ) → List ℕ → ℕ × List ℕ
  | 0, index, lengths => (index, lengths)
  | dupLen + 1, index, lengths =>
    if index < target then
      storeLengths length target dupLen (index + 1) (deflateSetLength lengths index length)
    else (index, lengths)

def dynamicLitlenDistanceExtra : DeflateOutcome σ :=
  await c (src.extract c.extraBits s) fun extra s =>
    let (index, lengths) :=
      storeLengths c.length c.lengthTarget (c.dupLen + extra) c.lengthIndex c.lengths
    let c := { c with lengthIndex := index, lengths := lengths }
    if c.lengthIndex < c.lengthTarget then c.goto s .dynamicLitlenDistance
    else c.goto s .constructAlphabets

/-- The lengths, the number of codes and the offset of the distance alphabet.  A single
distance code is replaced by two codes of one bit. -/
def distanceLengths : List ℕ × ℕ × ℕ :=
  if c.distanceCount = 1 then (c.lengths.set 0 0x11, 2, 0)
  else (c.lengths, c.distanceCount, c.litlenCount)

def constructAlphabets : DeflateOutcome σ :=
  match deflateAlphabet c.lengths c.litlen c.litlenCount 0 with
  | (litlen, .error rc) => { c with litlen := litlen }.fail s rc
  | (litlen, .ok ()) =>
    let (lengths, count, offset) := c.distanceLengths
    let c := { c with litlen := litlen, lengths := lengths }
    match deflateAlphabet lengths c.distanceCodelen count offset with
    | (distance, .error rc) => { c with distanceCodelen := distance }.fail s rc
    | (distance, .ok ()) => { c with distanceCodelen := distance }.goto s .lzhufLitlen

/-- One turn of the loop over the literal/length codes. -/
def lzhufLitlen : DeflateOutcome σ :=
  await c (src.decode c.litlen s) fun code s =>
    if code < deflateLitlenEnd then
      let byte := UInt8.ofNat code
      { c with out := deflateCopy c.out (readFrom [byte]) 0 1 }.goto s .lzhufLitlen
    else if code = deflateLitlenEnd then c.goto s .blockDone
    else
      let extra := code - deflateLitlenEnd - 1
      let c :=
        if extra < 28 then
          { c with
            extraBits := litlenExtraBits extra
            dupLen := deflateLitlenBase.getD extra 0 }
        else { c with extraBits := 0, dupLen := 258 }
      c.goto s .lzhufLitlenExtra

def lzhufLitlenExtra : DeflateOutcome σ :=
  await c (src.extract c.extraBits s) fun extra s =>
    { c with dupLen := c.dupLen + extra }.goto s .lzhufDistance

def lzhufDistance : DeflateOutcome σ :=
  await c (src.decode c.distanceCodelen s) fun code s =>
    { c with
      extraBits := distanceExtraBits code
      dupDistance := deflateDistanceBase.getD code 0 }.goto s .lzhufDistanceExtra

def lzhufDistanceExtra : DeflateOutcome σ :=
  await c (src.extract c.extraBits s) fun extra s =>
    let dupDistance := c.dupDistance + extra
    if c.out.offset < dupDistance then c.fail s .einval
    else
      { c with out := deflateCopy c.out readBack (c.out.offset - dupDistance) c.dupLen }.goto s
        .lzhufLitlen

def blockDone : DeflateOutcome σ :=
  if c.header &&& 1 = 0 then c.goto s .blockHeader
  else
    match c.format with
    | .raw => c.goto s .finished
    | .zlib => c.goto s .zlibFooter

def zlibFooter : DeflateOutcome σ := c.goto (src.discardToByte s) .zlibAdler32

/-- The checksum is not looked at. -/
def zlibAdler32 : DeflateOutcome σ := await c (src.accumulate 32 s) fun _ s => c.goto s .finished

end Inflater

def deflateStep {σ : Type} (src : BitSource σ) (c : Inflater) (s : σ) : DeflateOutcome σ :=
  match c.label with
  | .zlibHeader => c.zlibHeader src s
  | .blockHeader => c.blockHeader src s
  | .literalBlock => c.literalBlock src s
  | .literalLen => c.literalLen src s
  | .literalNlen => c.literalNlen src s
  | .literalData => c.literalData src s
  | .staticBlock => c.staticBlock s
  | .dynamicHeader => c.dynamicHeader src s
  | .dynamicCodelen => c.dynamicCodelen src s
  | .dynamicLitlenDistance => c.dynamicLitlenDistance src s
  | .dynamicLitlenDistanceExtra => c.dynamicLitlenDistanceExtra src s
  | .constructAlphabets => c.constructAlphabets s
  | .lzhufLitlen => c.lzhufLitlen src s
  | .lzhufLitlenExtra => c.lzhufLitlenExtra src s
  | .lzhufDistance => c.lzhufDistance src s
  | .lzhufDistanceExtra => c.lzhufDistanceExtra src s
  | .blockDone => c.blockDone s
  | .zlibFooter => c.zlibFooter src s
  | .zlibAdler32 => c.zlibAdler32 src s
  | .finished => .halt (.stopped (.ok ()) c s)

/-! ## A call
[492-505,980-991] -/

/-- What `deflate_inflate` returns, and what it leaves. -/
structure InflateReturn where
  rc : Except Errno Unit
  deflate : Deflate
  input : DeflateChunk
  out : DeflateChunk

/-- The label that a call jumps to. -/
def Deflate.entry : DeflateLabel :=
  match deflate.resume with
  | some label => label
  | none =>
    match deflate.format with
    | .raw => .blockHeader
    | .zlib => .zlibHeader

/-- Only a return that waits or that finishes changes the resume point. -/
def Deflate.returned (input : DeflateChunk)
    (h : Halt Inflater DeflateInput (Except Errno Unit)) : InflateReturn where
  rc :=
    match h with
    | .waiting _ _ => .ok ()
    | .stopped rc _ _ => rc
  deflate :=
    { h.control.toDeflateRegs with
      resume :=
        match h with
        | .waiting c _ => some c.label
        | .stopped (.ok ()) _ _ => none
        | .stopped (.error _) _ _ => deflate.resume
      accumulator := h.input.accumulator
      rotalumucca := h.input.rotalumucca
      bits := h.input.bits }
  input := { input with offset := input.data.length - h.input.bytes.length }
  out := h.control.out

/-- A bound for the number of steps: several for every bit that may be read. -/
def inflateFuel (input : DeflateInput) : ℕ := 8 * (input.bits + 8 * input.bytes.length) + 8

/-- Nothing if the call does not return. -/
def deflateInflate (input out : DeflateChunk) : Option InflateReturn :=
  let start : Inflater :=
    { deflate.toDeflateRegs with
      label := deflate.entry
      out := out }
  let source : DeflateInput :=
    { accumulator := deflate.accumulator
      rotalumucca := deflate.rotalumucca
      bits := deflate.bits
      bytes := input.data.drop input.offset }
  (runFor (deflateStep inputSource) (inflateFuel source) start source).map
    (deflate.returned input)

/-! ## Callers
[tests/deflate_test.c:150-208, image/png.c:335-355] -/

/-- What a caller sees: `deflate_finished()` tells the two successful returns apart. -/
inductive DeflateStatus where
  | finished
  | incomplete
  | error (rc : Errno)
  deriving DecidableEq

def InflateReturn.status (r : InflateReturn) : DeflateStatus :=
  match r.rc with
  | .error rc => .error rc
  | .ok () => if deflateFinished r.deflate then .finished else .incomplete

/-- A caller between two calls on one decompressor. -/
structure DeflateCaller where
  deflate : Deflate
  out : DeflateChunk
  status : DeflateStatus := .incomplete

namespace DeflateCaller

def start (format : DeflateFormat) (out : DeflateChunk) : DeflateCaller where
  deflate := deflateInit format
  out := out

variable (caller : DeflateCaller)

def pass (chunk : Bytes) : Option DeflateCaller :=
  (deflateInflate caller.deflate { data := chunk } caller.out).map fun r =>
    { deflate := r.deflate
      out := r.out
      status := r.status }

/-- A call for every chunk, whatever the calls before it returned. -/
def passAll (chunks : List Bytes) : Option DeflateCaller :=
  chunks.foldlM pass caller

/-- A call for every chunk until one has finished or failed. -/
def passUntilDone : DeflateCaller → List Bytes → Option DeflateCaller
  | caller, [] => some caller
  | caller, chunk :: chunks =>
    (caller.pass chunk).bind fun caller =>
      if caller.status = .incomplete then caller.passUntilDone chunks else some caller

end DeflateCaller

end Ipxe.Model
