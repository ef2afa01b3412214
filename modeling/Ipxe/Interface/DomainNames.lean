import Ipxe.Model.DnsName

/-!
# Domain names

A domain name is a sequence of labels.  As a string they have dots between them; in a packet each
has its length before it, up to a length of zero or a pointer to an earlier offset.
-/

namespace Ipxe.Interface

open Model

variable (string : Bytes)

def stripDot : Bytes :=
  if string.getLast? = some dot then string.dropLast else string

/-- The labels of a string; the empty one and a dot alone are the root, which has none. -/
def stringLabels : List Bytes :=
  if stripDot string = [] then [] else (stripDot string).splitOn dot

def ValidLabel (label : Bytes) : Prop := label ≠ [] ∧ label.length ≤ 63

instance (label : Bytes) : Decidable (ValidLabel label) := inferInstanceAs (Decidable (_ ∧ _))

def joinLabels (labels : List Bytes) : Bytes := [dot].intercalate labels

def encodeLabel (label : Bytes) : Bytes := UInt8.ofNat label.length :: label

def encodeLabels (labels : List Bytes) : Bytes := labels.flatMap encodeLabel ++ [0]

inductive NameAt (data : Bytes) : ℕ → List Bytes → Prop
  | root {offset : ℕ} : data[offset]? = some 0 → NameAt data offset []
  | label {offset : ℕ} {label rest : Bytes} {labels : List Bytes} :
      ValidLabel label → data.drop offset = encodeLabel label ++ rest →
      NameAt data (offset + (1 + label.length)) labels → NameAt data offset (label :: labels)
  | pointer {offset : ℕ} {high low : UInt8} {labels : List Bytes} :
      64 ≤ high.toNat → data[offset]? = some high → data[offset + 1]? = some low →
      high.toNat % 64 * 256 + low.toNat < offset →
      NameAt data (high.toNat % 64 * 256 + low.toNat) labels → NameAt data offset labels

/-- Where what stands in place of a name ends: behind its root or its first pointer. -/
inductive InPlace (data : Bytes) : ℕ → ℕ → Prop
  | root {offset : ℕ} : data[offset]? = some 0 → InPlace data offset (offset + 1)
  | label {offset after : ℕ} {label rest : Bytes} :
      ValidLabel label → data.drop offset = encodeLabel label ++ rest →
      InPlace data (offset + (1 + label.length)) after → InPlace data offset after
  | pointer {offset : ℕ} {high : UInt8} :
      64 ≤ high.toNat → data[offset]? = some high → InPlace data offset (offset + 2)

/-- What a buffer of `len` bytes gets of a string: the bytes that fit, and a zero byte if it
fits as well. -/
def fitted (len : ℕ) : Bytes := (string ++ [0]).take len

/-- What `snprintf` writes of a string to a buffer of `len` bytes. -/
def terminated (len : ℕ) : Bytes :=
  if len = 0 then [] else string.take (len - 1) ++ [0]

end Ipxe.Interface
