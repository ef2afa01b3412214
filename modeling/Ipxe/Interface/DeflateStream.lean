import Ipxe.Library.CanonicalCodes

/-!
# Compressed streams

What RFC 1951 says about a compressed stream: what it is made of, which strings of bits stand
for it, and which bytes it decompresses to.  A Huffman code must be complete, except that the only
distance of a block has a code word of one bit, and there need be no code if none is used.
-/

namespace Ipxe.Interface

open Library

/-- Extra bits and smallest length of the length codes, the first of which is symbol 257. -/
def lengthCodes : List (ℕ × ℕ) :=
  [(0, 3), (0, 4), (0, 5), (0, 6), (0, 7), (0, 8), (0, 9), (0, 10), (1, 11), (1, 13), (1, 15),
    (1, 17), (2, 19), (2, 23), (2, 27), (2, 31), (3, 35), (3, 43), (3, 51), (3, 59), (4, 67),
    (4, 83), (4, 99), (4, 115), (5, 131), (5, 163), (5, 195), (5, 227), (0, 258)]

/-- Extra bits and smallest distance of the distance codes. -/
def distanceCodes : List (ℕ × ℕ) :=
  [(0, 1), (0, 2), (0, 3), (0, 4), (1, 5), (1, 7), (2, 9), (2, 13), (3, 17), (3, 25), (4, 33),
    (4, 49), (5, 65), (5, 97), (6, 129), (6, 193), (7, 257), (7, 385), (8, 513), (8, 769),
    (9, 1025), (9, 1537), (10, 2049), (10, 3073), (11, 4097), (11, 6145), (12, 8193),
    (12, 12289), (13, 16385), (13, 24577)]

inductive Token where
  | literal (byte : UInt8)
  /-- a length code and a distance code, each with the value of its extra bits -/
  | copy (lengthCode lengthExtra distanceCode distanceExtra : ℕ)

/-- The code lengths of the two alphabets of a block. -/
structure CodePair where
  litlen : List ℕ
  dist : List ℕ

/-- Repeat `len` bytes from a distance back, one after the other. -/
def copyBack (distance : ℕ) : ℕ → Bytes → Bytes
  | 0, output => output
  | len + 1, output =>
    copyBack distance len (output ++ [output.getD (output.length - distance) 0])

namespace Token

def length (lengthCode lengthExtra : ℕ) : ℕ := (lengthCodes.getD lengthCode (0, 0)).2 + lengthExtra

def distance (distanceCode distanceExtra : ℕ) : ℕ :=
  (distanceCodes.getD distanceCode (0, 0)).2 + distanceExtra

def bits (codes : CodePair) : Token → List Bool
  | .literal byte => codeBits codes.litlen byte.toNat
  | .copy lengthCode lengthExtra distanceCode distanceExtra =>
    codeBits codes.litlen (257 + lengthCode) ++
      (bitsOf (lengthCodes.getD lengthCode (0, 0)).1 lengthExtra ++
        (codeBits codes.dist distanceCode ++
          bitsOf (distanceCodes.getD distanceCode (0, 0)).1 distanceExtra))

/-- The token has code words, and it reaches back no further than the output so far. -/
def Valid (codes : CodePair) (output : Bytes) : Token → Prop
  | .literal byte => codes.litlen.getD byte.toNat 0 ≠ 0
  | .copy lengthCode lengthExtra distanceCode distanceExtra =>
    lengthCode < 29 ∧ lengthExtra < 2 ^ (lengthCodes.getD lengthCode (0, 0)).1 ∧
      codes.litlen.getD (257 + lengthCode) 0 ≠ 0 ∧
    distanceCode < 30 ∧ distanceExtra < 2 ^ (distanceCodes.getD distanceCode (0, 0)).1 ∧
      codes.dist.getD distanceCode 0 ≠ 0 ∧
    distance distanceCode distanceExtra ≤ output.length

instance (codes : CodePair) (output : Bytes) : (token : Token) →
    Decidable (token.Valid codes output)
  | .literal _ => inferInstanceAs (Decidable (_ ≠ _))
  | .copy _ _ _ _ => inferInstanceAs (Decidable (_ ∧ _))

def expand (output : Bytes) : Token → Bytes
  | .literal byte => output ++ [byte]
  | .copy lengthCode lengthExtra distanceCode distanceExtra =>
    copyBack (distance distanceCode distanceExtra) (length lengthCode lengthExtra) output

end Token

/-- The end of block code is symbol 256. -/
def tokensBits (codes : CodePair) (tokens : List Token) : List Bool :=
  tokens.flatMap (Token.bits codes) ++ codeBits codes.litlen 256

def TokensValid (codes : CodePair) : Bytes → List Token → Prop
  | _, [] => codes.litlen.getD 256 0 ≠ 0
  | output, token :: tokens =>
    token.Valid codes output ∧ TokensValid codes (token.expand output) tokens

instance decidableTokensValid (codes : CodePair) : (output : Bytes) → (tokens : List Token) →
    Decidable (TokensValid codes output tokens)
  | _, [] => inferInstanceAs (Decidable (_ ≠ _))
  | output, token :: tokens =>
    have := decidableTokensValid codes (token.expand output) tokens
    inferInstanceAs (Decidable (token.Valid codes output ∧ _))

/-- The order in which the code lengths of the code length code are sent. -/
def codeLengthOrder : List ℕ := [16, 17, 18, 0, 8, 7, 9, 6, 10, 5, 11, 4, 12, 3, 13, 2, 14, 1, 15]

/-- An element of the sequence of code lengths; repetitions have the value of their extra
bits. -/
inductive LengthItem where
  | length (len : ℕ)
  | repeatPrevious (extra : ℕ)
  | repeatZero (extra : ℕ)
  | repeatZeroLong (extra : ℕ)

namespace LengthItem

def symbol : LengthItem → ℕ
  | .length len => len
  | .repeatPrevious _ => 16
  | .repeatZero _ => 17
  | .repeatZeroLong _ => 18

def extraBits : LengthItem → List Bool
  | .length _ => []
  | .repeatPrevious extra => bitsOf 2 extra
  | .repeatZero extra => bitsOf 3 extra
  | .repeatZeroLong extra => bitsOf 7 extra

def expand (lens : List ℕ) : LengthItem → List ℕ
  | .length len => lens ++ [len]
  | .repeatPrevious extra => lens ++ List.replicate (3 + extra) (lens.getLastD 0)
  | .repeatZero extra => lens ++ List.replicate (3 + extra) 0
  | .repeatZeroLong extra => lens ++ List.replicate (11 + extra) 0

/-- There has to be a length before it can be repeated. -/
def Valid (lens : List ℕ) : LengthItem → Prop
  | .length len => len ≤ 15
  | .repeatPrevious extra => extra < 2 ^ 2 ∧ lens ≠ []
  | .repeatZero extra => extra < 2 ^ 3
  | .repeatZeroLong extra => extra < 2 ^ 7

instance (lens : List ℕ) : (item : LengthItem) → Decidable (item.Valid lens)
  | .length _ => inferInstanceAs (Decidable (_ ≤ _))
  | .repeatPrevious _ => inferInstanceAs (Decidable (_ ∧ _))
  | .repeatZero _ => inferInstanceAs (Decidable (_ < _))
  | .repeatZeroLong _ => inferInstanceAs (Decidable (_ < _))

end LengthItem

/-- A description of the two codes of a block. -/
structure CodeDescription where
  /-- the code lengths of the code length code that are sent, in order -/
  sent : List ℕ
  items : List LengthItem
  codes : CodePair

namespace CodeDescription

variable (desc : CodeDescription)

def codeLengths : List ℕ :=
  (List.range 19).map fun symbol => desc.sent.getD (codeLengthOrder.idxOf symbol) 0

def itemsBits : List Bool :=
  desc.items.flatMap fun item => codeBits desc.codeLengths item.symbol ++ item.extraBits

def bits : List Bool :=
  bitsOf 5 (desc.codes.litlen.length - 257) ++
    (bitsOf 5 (desc.codes.dist.length - 1) ++
      (bitsOf 4 (desc.sent.length - 4) ++
        (desc.sent.flatMap (bitsOf 3) ++ desc.itemsBits)))

/-- The items describe the lengths one after the other, each with a code word. -/
def ItemsValid : List ℕ → List LengthItem → Prop
  | lens, [] => lens = desc.codes.litlen ++ desc.codes.dist
  | lens, item :: items =>
    item.Valid lens ∧ desc.codeLengths.getD item.symbol 0 ≠ 0 ∧
      ItemsValid (item.expand lens) items

instance decidableItemsValid : (lens : List ℕ) → (items : List LengthItem) →
    Decidable (desc.ItemsValid lens items)
  | _, [] => inferInstanceAs (Decidable (_ = _))
  | lens, item :: items =>
    have := decidableItemsValid (item.expand lens) items
    inferInstanceAs (Decidable (_ ∧ _ ∧ _))

/-- A complete code, or a single word of one bit, or no word at all. -/
def DistancesValid (dist : List ℕ) : Prop :=
  Complete dist 15 ∨ dist.filter (· ≠ 0) = [1] ∨ dist.filter (· ≠ 0) = []

instance (dist : List ℕ) : Decidable (DistancesValid dist) :=
  inferInstanceAs (Decidable (_ ∨ _ ∨ _))

structure Valid : Prop where
  sent_length : 4 ≤ desc.sent.length ∧ desc.sent.length ≤ 19
  sent_lt : ∀ len ∈ desc.sent, len < 8
  codeLengths_complete : Complete desc.codeLengths 15
  litlen_length : 257 ≤ desc.codes.litlen.length ∧ desc.codes.litlen.length ≤ 286
  dist_length : 1 ≤ desc.codes.dist.length ∧ desc.codes.dist.length ≤ 32
  items : desc.ItemsValid [] desc.items
  litlen_complete : Complete desc.codes.litlen 15
  distances : DistancesValid desc.codes.dist

theorem valid_iff : desc.Valid ↔
    (4 ≤ desc.sent.length ∧ desc.sent.length ≤ 19) ∧
      (∀ len ∈ desc.sent, len < 8) ∧ Complete desc.codeLengths 15 ∧
      (257 ≤ desc.codes.litlen.length ∧ desc.codes.litlen.length ≤ 286) ∧
      (1 ≤ desc.codes.dist.length ∧ desc.codes.dist.length ≤ 32) ∧
      desc.ItemsValid [] desc.items ∧ Complete desc.codes.litlen 15 ∧
      DistancesValid desc.codes.dist :=
  ⟨fun ⟨a, b, c, d, e, f, g, h⟩ => ⟨a, b, c, d, e, f, g, h⟩,
    fun ⟨a, b, c, d, e, f, g, h⟩ => ⟨a, b, c, d, e, f, g, h⟩⟩

instance : Decidable desc.Valid := decidable_of_iff _ desc.valid_iff.symm

end CodeDescription

def fixedCodes : CodePair where
  litlen :=
    List.replicate 144 8 ++ List.replicate 112 9 ++ List.replicate 24 7 ++ List.replicate 8 8
  dist := List.replicate 32 5

inductive Block where
  | stored (padding : List Bool) (data : Bytes)
  | fixed (tokens : List Token)
  | dynamic (desc : CodeDescription) (tokens : List Token)

namespace Block

/-- The bits of a block behind the bit that marks the last one. -/
def body : Block → List Bool
  | .stored padding data =>
    bitsOf 2 0 ++ (padding ++ (bitsOf 16 data.length ++ (bitsOf 16 (65535 - data.length) ++
      bytesBits data)))
  | .fixed tokens => bitsOf 2 1 ++ tokensBits fixedCodes tokens
  | .dynamic desc tokens =>
    bitsOf 2 2 ++ (desc.bits ++ tokensBits desc.codes tokens)

def bits (last : Bool) (block : Block) : List Bool := last :: block.body

/-- Valid behind `position` bits of the stream and behind the output so far. -/
def Valid (position : ℕ) (output : Bytes) : Block → Prop
  | .stored padding data => (position + 3 + padding.length) % 8 = 0 ∧ padding.length < 8 ∧
      data.length < 65536
  | .fixed tokens => TokensValid fixedCodes output tokens
  | .dynamic desc tokens => desc.Valid ∧ TokensValid desc.codes output tokens

instance (position : ℕ) (output : Bytes) : (block : Block) → Decidable (block.Valid position output)
  | .stored _ _ => inferInstanceAs (Decidable (_ ∧ _))
  | .fixed _ => inferInstanceAs (Decidable (TokensValid _ _ _))
  | .dynamic _ _ => inferInstanceAs (Decidable (_ ∧ _))

def expand (output : Bytes) : Block → Bytes
  | .stored _ data => output ++ data
  | .fixed tokens => tokens.foldl Token.expand output
  | .dynamic _ tokens => tokens.foldl Token.expand output

/-- Distances are described by a complete code, or by a single length. -/
def Supported : Block → Prop
  | .dynamic desc _ =>
    Complete desc.codes.dist 15 ∨ desc.codes.dist.length = 1
  | _ => True

instance : (block : Block) → Decidable block.Supported
  | .stored _ _ => .isTrue trivial
  | .fixed _ => .isTrue trivial
  | .dynamic _ _ => inferInstanceAs (Decidable (_ ∨ _))

end Block

structure DeflateStream where
  blocks : List Block
  last : Block

namespace DeflateStream

def bitsFrom (last : Block) : List Block → List Bool
  | [] => last.bits true
  | block :: blocks => block.bits false ++ bitsFrom last blocks

variable (stream : DeflateStream)

def bits : List Bool := bitsFrom stream.last stream.blocks

def ValidFrom (last : Block) : (position : ℕ) → Bytes → List Block → Prop
  | position, output, [] => last.Valid position output
  | position, output, block :: blocks =>
    block.Valid position output ∧
      ValidFrom last (position + (block.bits false).length) (block.expand output) blocks

instance decidableValidFrom (last : Block) : (position : ℕ) → (output : Bytes) →
    (blocks : List Block) → Decidable (ValidFrom last position output blocks)
  | position, output, [] => inferInstanceAs (Decidable (last.Valid position output))
  | position, output, block :: blocks =>
    have := decidableValidFrom last (position + (block.bits false).length) (block.expand output)
      blocks
    inferInstanceAs (Decidable (_ ∧ _))

def Valid : Prop := ValidFrom stream.last 0 [] stream.blocks

instance (stream : DeflateStream) : Decidable stream.Valid :=
  inferInstanceAs (Decidable (ValidFrom _ _ _ _))

def output : Bytes :=
  stream.last.expand (stream.blocks.foldl Block.expand [])

/-- A buffer that some output has been written to, as far as it fits. -/
def shown (buffer output : Bytes) : Bytes :=
  (output ++ buffer.drop output.length).take buffer.length

def Supported (stream : DeflateStream) : Prop :=
  (∀ block ∈ stream.blocks, block.Supported) ∧ stream.last.Supported

instance (stream : DeflateStream) : Decidable stream.Supported :=
  inferInstanceAs (Decidable (_ ∧ _))

end DeflateStream

end Ipxe.Interface
