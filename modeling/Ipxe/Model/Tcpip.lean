import Ipxe.Library.Bytes
import Mathlib.Tactic

/-!
# TCP/IP checksums

`net/tcpip.c`.  The one's complement checksum that the IP and transport layers share: the routine
for blocks of any length, the generic routine with the index that it counts in, and the instructions
of the x86 routine.
-/

namespace Ipxe.Model

/-- One byte of the checksum loop: odd bytes are the high halves of the 16-bit
words on the little-endian machines iPXE runs on.
[176-188] -/
def tcpipChksumStep (cksum i : ℕ) (byte : UInt8) : ℕ :=
  let value := if i % 2 = 1 then byte.toNat * 256 else byte.toNat
  if cksum + value > 0xffff then cksum + value - 0xffff else cksum + value

/-- The checksum loop, from byte number `i` on. -/
def tcpipChksumLoop (cksum i : ℕ) : Bytes → ℕ
  | [] => cksum
  | byte :: data => tcpipChksumLoop (tcpipChksumStep cksum i byte) (i + 1) data

/-- Calculate continued TCP/IP checksum.
[170-191] -/
def tcpipContinueChksum (partialSum : UInt16) (data : Bytes) : UInt16 :=
  UInt16.ofNat (0xffff - tcpipChksumLoop (0xffff - partialSum.toNat) 0 data)

/-- `TCPIP_EMPTY_CSUM`, the positive representation of zero.
[include/ipxe/tcpip.h:57] -/
def tcpipEmptyCsum : UInt16 := 0

/-- The loop of the generic routine, for so many steps.  The index is an `unsigned int`, and the
length a `size_t`.
[176-188] -/
def genericTcpipChksumUpTo (data : Bytes) : ℕ → ℕ → ℕ → Option ℕ
  | 0, _, _ => none
  | steps + 1, i, cksum =>
    if i < data.length then
      genericTcpipChksumUpTo data steps ((i + 1) % 2 ^ 32)
        (tcpipChksumStep cksum i (data.getD i 0))
    else some cksum

/-- See 170-191 -/
def genericTcpipContinueChksum (steps : ℕ) (partialSum : UInt16) (data : Bytes) : Option UInt16 :=
  (genericTcpipChksumUpTo data steps 0 (0xffff - partialSum.toNat)).map
    fun cksum => UInt16.ofNat (0xffff - cksum)

/-! ## The x86 routine -/

inductive X86Build where
  | i386
  | x8664
  deriving DecidableEq

def X86Build.longBytes : X86Build → ℕ
  | i386 => 4
  | x8664 => 8

/-- The register that holds the sum, and the carry flag. -/
structure X86Sum where
  sum : ℕ
  cf : Bool

/-- `adc` to the low bytes of the register. -/
def X86Sum.adc (size : ℕ) (reg : X86Sum) (value : ℕ) : X86Sum :=
  let total := reg.sum % 256 ^ size + value + reg.cf.toNat
  { sum := reg.sum / 256 ^ size * 256 ^ size + total % 256 ^ size
    cf := decide (256 ^ size ≤ total) }

/-- `adcb $0, %h0`: the carry is added to the second byte. -/
def X86Sum.adcHigh (reg : X86Sum) : X86Sum :=
  let total := reg.sum / 256 % 256 + reg.cf.toNat
  { sum := reg.sum / 65536 * 65536 + total % 256 * 256 + reg.sum % 256
    cf := decide (256 ≤ total) }

def leValue : Bytes → ℕ
  | [] => 0
  | byte :: data => byte.toNat + 256 * leValue data

/-- `lods; adc`, so many times. -/
def X86Sum.lodsAdc (size : ℕ) : ℕ → X86Sum × Bytes → X86Sum × Bytes
  | 0, state => state
  | n + 1, (reg, data) =>
    lodsAdc size n (reg.adc size (leValue (data.take size)), data.drop size)

/-- The main loop, unrolled sixteen times, after the iteration that is entered in the middle. -/
def X86Sum.unrolled (size : ℕ) : ℕ → X86Sum × Bytes → X86Sum × Bytes
  | 0, state => state
  | n + 1, state => unrolled size n (lodsAdc size 16 state)

variable (build : X86Build)

/-- The 16-bit words of the register above the lowest one, as they are popped. -/
def X86Sum.upperWords (sum : ℕ) : List ℕ :=
  (List.range (build.longBytes / 2 - 1)).map fun i => sum / 65536 ^ (i + 1) % 65536

/-- Fold down to a `uint16_t`, and consume the carry.
[arch/x86/core/x86_tcpip.c:147-162] -/
def X86Sum.fold (reg : X86Sum) : ℕ :=
  let low := (upperWords build reg.sum).foldl (adc 2) { reg with sum := reg.sum % 65536 }
  ((low.adc 2 0).adc 2 0).sum

/-- Calculate continued TCP/IP checksum of a block at an address.
[arch/x86/core/x86_tcpip.c:45-173] -/
def x86TcpipContinueChksum (address : ℕ) (partialSum : UInt16) (data : Bytes) : UInt16 :=
  let size := build.longBytes
  let initialWordCount :=
    if data.length ≥ size then (size - address % size) % size / 2 else 0
  let len := data.length - initialWordCount * 2
  let state := X86Sum.lodsAdc 2 initialWordCount (⟨0xffff - partialSum.toNat, false⟩, data)
  let state := X86Sum.lodsAdc size (len % (size * 16) / size) state
  let state := X86Sum.unrolled size (len / (size * 16)) state
  let (reg, rest) := X86Sum.lodsAdc 2 (len % size / 2) state
  let reg := if len % 2 = 1 then ((reg.adc 1 (rest.headD 0).toNat).adcHigh) else reg
  UInt16.ofNat (0xffff - reg.fold build)

end Ipxe.Model
