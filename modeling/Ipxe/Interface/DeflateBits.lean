import Ipxe.Library.CanonicalCodes
import Ipxe.Model.Deflate

/-!
# Decompression of a string of bits

The decompressor without its accumulators: the same steps on the string of all bits to come
(`DeflateInput.pending`), with code words read bit by bit.
-/

namespace Ipxe.Model

open Library

def Alphabet.symbols (alphabet : Alphabet) (len : ℕ) : HufSymbols := alphabet.huf.getD (len - 1) {}

def Alphabet.freqOf (alphabet : Alphabet) (len : ℕ) : ℕ :=
  if len = 0 then 0 else (alphabet.symbols len).freq

def bitSource : BitSource (List Bool) where
  extract target bits :=
    if target ≤ bits.length then (some (lsbValue (bits.take target)), bits.drop target)
    else (none, bits)
  decode alphabet bits :=
    match codeLength alphabet.freqOf deflateHuffmanBits bits with
    | some len =>
      (some (alphabet.rawAt (alphabet.symbols len) (msbValue (bits.take len))), bits.drop len)
    | none => (none, bits)
  accumulate target bits := (if target ≤ bits.length then some () else none, bits)
  discardToByte bits := bits.drop (bits.length % 8)
  literal := takeBytes

def bitStep : Inflater → List Bool → DeflateOutcome (List Bool) := deflateStep bitSource

namespace DeflateInput

def pending (input : DeflateInput) : List Bool :=
  bitsOf input.bits input.accumulator ++ bytesBits input.bytes

/-- The accumulators hold the same bits, one of them in its lowest and the other, reversed, in
its highest bits. -/
structure Wf (input : DeflateInput) : Prop where
  bits_le : input.bits ≤ 32
  accumulator_lt : input.accumulator < 2 ^ input.bits
  rotalumucca_eq :
    input.rotalumucca = msbValue (bitsOf input.bits input.accumulator) * 2 ^ (32 - input.bits)

end DeflateInput

/-- The code lengths that an alphabet is constructed from. -/
def codeLens (lengths : List ℕ) (count offset : ℕ) : List ℕ :=
  (List.range count).map fun raw => deflateLength lengths (raw + offset)

/-- How many symbols have a word that is shorter. -/
def shorterCount (count : ℕ → ℕ) (len : ℕ) : ℕ := ∑ l ∈ Finset.range len, count l

/-- The symbols of one length in the table of an alphabet. -/
def hufEntry (count : ℕ → ℕ) (len : ℕ) (raw : ℤ) : HufSymbols where
  bits := len
  shift := 16 - len
  freq := count len
  start := firstCode count len * 2 ^ (16 - len)
  raw := raw

/-- The tables are those of a complete code with these lengths. -/
structure Alphabet.Tables (alphabet : Alphabet) (lens : List ℕ) : Prop where
  complete : endCode (lengthCount lens) 15 = 2 ^ 15
  symbols_eq : ∀ len, 1 ≤ len → len ≤ 15 →
    alphabet.symbols len =
      hufEntry (lengthCount lens) len
        (shorterCount (lengthCount lens) len - firstCode (lengthCount lens) len)
  lookup_eq : ∀ i < 128, ∃ len, (1 ≤ len ∧ len ≤ 15) ∧ alphabet.lookup.getD i 0 = len - 1 ∧
    ∀ longer, len < longer → longer ≤ 15 →
      i < firstCode (lengthCount lens) longer * 2 ^ (16 - longer) / 2 ^ 9

end Ipxe.Model
