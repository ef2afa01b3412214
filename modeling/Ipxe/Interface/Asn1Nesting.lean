import Ipxe.Library.Runs
import Ipxe.Model.Asn1

/-!
# Nested ASN.1 objects

What a sequence of builder operations stands for, and what it is for a cursor to be read
back as such: every object is entered and skipped where it is, under its own type or any,
and refused under every other one.
-/

namespace Ipxe.Interface

open Library Model

/-- Some objects, one behind the other: an object holds plain content, or other objects. -/
inductive Asn1Objects where
  | none
  | plain (tag : UInt8) (content : Bytes) (others : Asn1Objects)
  | nested (tag : UInt8) (inner others : Asn1Objects)

/-- The first object at a cursor, with its content and what lies behind it. -/
structure IsObject (cursor : Asn1Cursor) (tag : UInt8) (content rest : Asn1Cursor) : Prop where
  accepted : ∀ type, type = asn1Any ∨ type = some tag →
    asn1Enter cursor type = (.ok (), content) ∧
      asn1Skip cursor type = if rest = [] then (.error .enoent, []) else (.ok (), rest)
  refused : ∀ type, type ≠ asn1Any → type ≠ some tag →
    asn1Enter cursor type = (.error .enxio, []) ∧ asn1Skip cursor type = (.error .enxio, [])

/-- **A cursor is read as some objects**, and as nothing else. -/
def ReadAs : Asn1Objects → Asn1Cursor → Prop
  | .none, cursor => cursor = []
  | .plain tag content others, cursor =>
    ∃ rest, IsObject cursor tag content rest ∧ ReadAs others rest
  | .nested tag inner others, cursor =>
    ∃ content rest, IsObject cursor tag content rest ∧ ReadAs inner content ∧ ReadAs others rest

inductive BuilderOp where
  | prepend (type : UInt8) (data : Bytes)
  | wrap (type : UInt8)

variable (builder : Asn1Builder)

/-- An operation whose allocation succeeds. -/
def builderStep : BuilderOp → Asn1Builder
  | .prepend type data => (asn1Prepend builder type data true).2
  | .wrap type => (asn1Wrap builder type true).2

/-- What an operation makes of the objects that are there. -/
def objectsStep (objects : Asn1Objects) : BuilderOp → Asn1Objects
  | .prepend type data => .plain type data objects
  | .wrap type => .nested type objects .none

/-- The length of the new object can be returned by `asn1_start` in an `int`. -/
def LengthFits : BuilderOp → Prop
  | .prepend _ data => data.length < 2 ^ 31
  | .wrap _ => builder.len < 2 ^ 31

/-- `HEAP_SIZE`, the size of the only memory that `realloc` takes blocks from.
[core/malloc.c:107-110,666-670] -/
def heapSize : ℕ := 512 * 1024

/-- The allocation of an operation can succeed: the builder is one block of the heap.
[crypto/asn1.c:749-757, core/malloc.c:521-538] -/
def Granted (op : BuilderOp) : Prop := (builderStep builder op).len ≤ heapSize

instance (builder : Asn1Builder) (op : BuilderOp) : Decidable (Granted builder op) :=
  inferInstanceAs (Decidable (_ ≤ _))

/-- An operation, and whether its allocation succeeds. -/
inductive BuilderCall where
  | prependRaw (data : Bytes) (alloc : Bool)
  | prepend (type : UInt8) (data : Bytes) (alloc : Bool)
  | wrap (type : UInt8) (alloc : Bool)

/-- Whether the allocation of an operation succeeds. -/
def BuilderCall.alloc : BuilderCall → Bool
  | .prependRaw _ alloc => alloc
  | .prepend _ _ alloc => alloc
  | .wrap _ alloc => alloc

/-- An operation that adds something. -/
def BuilderCall.Adds : BuilderCall → Prop
  | .prependRaw data _ => data ≠ []
  | _ => True

def builderCall : BuilderCall → Except Errno Unit × Asn1Builder
  | .prependRaw data alloc => asn1PrependRaw builder data alloc
  | .prepend type data alloc => asn1Prepend builder type data alloc
  | .wrap type alloc => asn1Wrap builder type alloc

/-- The builder after some operations, whatever they return. -/
def afterCalls (calls : List BuilderCall) : Asn1Builder :=
  run (fun builder call => (builderCall builder call).2) builder calls

def CallFails (call : BuilderCall) : Prop :=
  (builderCall builder call).1 ≠ .ok ()

end Ipxe.Interface
