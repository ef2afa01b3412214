import Ipxe.Library.Runs
import Ipxe.Model.Fragment

/-!
# Fragmented datagrams

A datagram travels as fragments with a header and a piece of its payload at some offset.  Fragments
belong together if an equivalence relation holds between their headers.
-/

namespace Ipxe.Interface

open Library Model

/-- A received fragment, whose header has at least the length that the protocol asks for. -/
structure IpFragment (least : ℕ) where
  iobuf : IoBuffer
  hdrlen : ℕ
  least_le : least ≤ hdrlen
  hdrlen_le : hdrlen ≤ iobuf.len

variable {least : ℕ} (packet : IpFragment least)

/-- The part of a fragment that is not fragmented. -/
def IpFragment.header : Bytes := packet.iobuf.bytes.take packet.hdrlen

def IpFragment.payload : Bytes := packet.iobuf.bytes.drop packet.hdrlen

inductive FragmentEvent (least : ℕ) where
  /-- a fragment is received, and memory can or cannot be allocated for it -/
  | received (alloc : Bool) (packet : IpFragment least)
  /-- the timer of a buffer runs out -/
  | expired (index : ℕ)

/-- The result of a received fragment: the packet that is complete now, if there is one, with the
length of its header, and the list of buffers. -/
def receive (fragments : FragmentReassembler) (list : List Fragment) (alloc : Bool)
    (packet : IpFragment least) : Option (IoBuffer × ℕ) × List Fragment :=
  fragmentReassemble fragments list alloc packet.iobuf packet.hdrlen packet.hdrlen_le

def fragmentStep (fragments : FragmentReassembler) (list : List Fragment) :
    FragmentEvent least → List Fragment
  | .received alloc packet => (receive fragments list alloc packet).2
  | .expired index => fragmentExpired list index

def receivedFragments (events : List (FragmentEvent least)) : List (IpFragment least) :=
  events.filterMap fun event =>
    match event with
    | .received _ packet => some packet
    | .expired _ => none

/-- The reassembler takes two packets for parts of one datagram if their headers are related. -/
structure RecognisesBy (fragments : FragmentReassembler) (least : ℕ)
    (same : Bytes → Bytes → Prop) : Prop where
  equivalence : Equivalence same
  isFragment_iff : ∀ (fragment : Fragment) (packet : IpFragment least), least ≤ fragment.hdrlen →
    (fragments.isFragment fragment packet.iobuf packet.hdrlen = true ↔
      same (fragment.iobuf.bytes.take fragment.hdrlen) packet.header)

/-- Each piece starts where the one before it ends. -/
def InSequence (fragments : FragmentReassembler) : ℕ → List (IpFragment least) → Prop
  | _, [] => True
  | offset, packet :: packets =>
    fragments.fragmentOffset packet.iobuf packet.hdrlen = offset ∧
      InSequence fragments (offset + packet.payload.length) packets

/-- Fragments of one datagram whose pieces follow each other from offset zero on, without gap or
overlap. -/
structure InDatagram (fragments : FragmentReassembler) (same : Bytes → Bytes → Prop)
    (parts : List (IpFragment least)) : Prop where
  one : ∀ part ∈ parts, ∀ other ∈ parts, same part.header other.header
  sequence : InSequence fragments 0 parts

end Ipxe.Interface
