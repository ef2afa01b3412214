import Ipxe.Library.Bytes
import Mathlib.Tactic

/-!
# Big integers

`crypto/bigint.c`, with the operations on elements of `arch/x86` and `arch/arm64`.  An element has
`w` bits, and a big integer is the list of its elements, element 0 first.

Left out: profiling and assertions, and bit numbers that do not fit an `int`.
-/

namespace Ipxe.Model

variable {w : ℕ}

abbrev Bigint (w : ℕ) : Type := List (BitVec w)

/-! ## Operations on elements
[arch/x86/include/bits/bigint.h, arch/arm64/include/bits/bigint.h] -/

/-- Subtract element by element, with the borrow of the element before. -/
def bigintSubtractFrom : Bool → Bigint w → Bigint w → Bigint w
  | borrow, subtrahend :: subtrahends, value :: values =>
    BitVec.ofInt w (value.toNat - subtrahend.toNat - borrow.toNat) ::
      bigintSubtractFrom (value.toNat < subtrahend.toNat + borrow.toNat) subtrahends values
  | _, _, values => values

def bigintSubtract (subtrahend value : Bigint w) : Bigint w :=
  bigintSubtractFrom false subtrahend value

/-- Rotate left through the carry, from element 0 on. -/
def bigintRolFrom : Bool → Bigint w → Bigint w
  | _, [] => []
  | carry, value :: values =>
    BitVec.ofNat w (2 * value.toNat + carry.toNat) :: bigintRolFrom value.msb values

variable (value : Bigint w)

def bigintRol : Bigint w := bigintRolFrom false value

/-- Rotate right through the carry, from the last element down; and the carry afterwards. -/
def bigintRorFrom : Bigint w → Bigint w × Bool
  | [] => ([], false)
  | value :: values =>
    let (rotated, carry) := bigintRorFrom values
    (BitVec.ofNat w (value.toNat / 2 + carry.toNat * 2 ^ (w - 1)) :: rotated, value.getLsbD 0)

def bigintRor : Bigint w := (bigintRorFrom value).1

def bigintIsZero : Bool := value.all (· = 0)

/-- Compare from the last element down, until two differ. -/
def bigintIsGeqDown : Bigint w → Bigint w → Bool
  | value :: values, reference :: references =>
    if value = reference then bigintIsGeqDown values references
    else reference.toNat ≤ value.toNat
  | _, _ => true

def bigintIsGeq (reference : Bigint w) : Bool :=
  bigintIsGeqDown value.reverse reference.reverse

def bigintBitIsSet (bit : ℕ) : Bool := (value.getD (bit / w) 0).getLsbD (bit % w)

/-- Search for an element that is not zero, from the last one down. -/
def bigintMaxSetBitDown : Bigint w → ℕ
  | [] => 0
  | value :: values =>
    if value = 0 then bigintMaxSetBitDown values
    else w * values.length + value.toNat.log2 + 1

def bigintMaxSetBit : ℕ := bigintMaxSetBitDown value.reverse

def bigintGrow (source : Bigint w) (destSize : ℕ) : Bigint w :=
  source ++ List.replicate (destSize - source.length) 0

def bigintShrink (source : Bigint w) (destSize : ℕ) : Bigint w := source.take destSize

/-! ## Multiplication
[arch/x86/core/x86_bigint.c:41-94, arch/arm64/core/arm64_bigint.c:41-99] -/

/-- Add a carry, and go on as long as there is one. -/
def bigintCarry : Bool → Bigint w → Bigint w
  | _, [] => []
  | carry, value :: values =>
    BitVec.ofNat w (value.toNat + carry.toNat) ::
      if 2 ^ w ≤ value.toNat + carry.toNat then bigintCarry true values else values

/-- Add the product of two elements to the elements of the result from an index on. -/
def bigintAddProduct (multiplicand multiplier : BitVec w) : Bigint w → Bigint w
  | low :: high :: values =>
    let product := multiplicand.toNat * multiplier.toNat
    let lowSum := low.toNat + product % 2 ^ w
    let highSum := high.toNat + product / 2 ^ w + lowSum / 2 ^ w
    BitVec.ofNat w lowSum :: BitVec.ofNat w highSum :: bigintCarry (2 ^ w ≤ highSum) values
  | values => values

/-- The loop over the elements of the multiplier. -/
def bigintMultiplyRow (multiplicand : BitVec w) : (index : ℕ) → Bigint w → Bigint w → Bigint w
  | _, [], result => result
  | index, multiplier :: multipliers, result =>
    bigintMultiplyRow multiplicand (index + 1) multipliers
      (result.take index ++ bigintAddProduct multiplicand multiplier (result.drop index))

/-- The loop over the elements of the multiplicand. -/
def bigintMultiplyRows (multiplier : Bigint w) : (index : ℕ) → Bigint w → Bigint w → Bigint w
  | _, [], result => result
  | index, multiplicand :: multiplicands, result =>
    bigintMultiplyRows multiplier (index + 1) multiplicands
      (bigintMultiplyRow multiplicand index multiplier result)

def bigintMultiply (multiplicand multiplier : Bigint w) : Bigint w :=
  bigintMultiplyRows multiplier 0 multiplicand (List.replicate (2 * multiplicand.length) 0)

/-! ## Modular arithmetic
[crypto/bigint.c:63-168] -/

/-- One turn of the loop that subtracts multiples of the modulus. -/
def bigintReduce (result modulus : Bigint w) : Bigint w × Bigint w :=
  (if bigintIsGeq result modulus then bigintSubtract modulus result else result, bigintRor modulus)

def bigintModMultiply (multiplicand multiplier modulus : Bigint w) : Bigint w :=
  let size := multiplicand.length
  let result := bigintMultiply multiplicand multiplier
  let tempModulus := bigintGrow modulus (2 * size)
  let rotation : ℤ := bigintMaxSetBit result - bigintMaxSetBit tempModulus
  let tempModulus := bigintRol^[rotation.toNat] tempModulus
  let reduced := (fun (result, modulus) => bigintReduce result modulus)^[(rotation + 1).toNat]
    (result, tempModulus)
  bigintShrink reduced.1 size

/-- The loop over the bits of the exponent; nothing if it takes more turns than that. -/
def bigintModExpLoop (modulus : Bigint w) : ℕ → (base exponent result : Bigint w) →
    Option (Bigint w)
  | 0, _, _, _ => none
  | turns + 1, base, exponent, result =>
    if bigintIsZero exponent then some result
    else
      let result :=
        if bigintBitIsSet exponent 0 then bigintModMultiply result base modulus else result
      bigintModExpLoop modulus turns (bigintModMultiply base base modulus) (bigintRor exponent)
        result

/-- The result starts as the number one. -/
def bigintModExp (base modulus exponent : Bigint w) : Option (Bigint w) :=
  bigintModExpLoop modulus (w * exponent.length + 1) base exponent
    (1 :: List.replicate (base.length - 1) 0)

/-! ## Conversion
[arch/x86/include/bits/bigint.h:26-48,308-330, arch/arm64/include/bits/bigint.h:26-38] -/

/-- Bytes as elements of `b` bytes, least significant byte first; bytes that are missing are
zero. -/
def bigintElements (b : ℕ) : ℕ → Bytes → Bigint (8 * b)
  | 0, _ => []
  | size + 1, bytes =>
    BitVec.ofNat (8 * b) (Nat.ofDigits 256 ((bytes.take b).map UInt8.toNat)) ::
      bigintElements b size (bytes.drop b)

/-- Copy raw data in reverse order, padding with zeros. -/
def bigintInit (b size : ℕ) (data : Bytes) : Bigint (8 * b) := bigintElements b size data.reverse

/-- Copy raw data in reverse order. -/
def bigintDone {b : ℕ} (value : Bigint (8 * b)) (len : ℕ) : Bytes :=
  ((value.flatMap fun element =>
    (List.range b).map fun i => UInt8.ofNat (element.toNat / 256 ^ i)).take len).reverse

end Ipxe.Model
