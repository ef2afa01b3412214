import Ipxe.Model.Iobuf

/-!
# Fragment reassembly

`net/fragment.c` keeps one list of reassembly buffers per protocol, with three callbacks.  A buffer
carries the fact that its non-fragmentable part lies inside it, which `fragment_reassemble` relies
on.  The expiry timer only removes a buffer (`fragmentExpired`).

Left out: statistics.
-/

namespace Ipxe.Model

open List

/-- A fragment reassembly buffer.
[include/ipxe/fragment.h:20-33] -/
structure Fragment where
  /-- reassembled packet, as far as it has arrived -/
  iobuf : IoBuffer
  /-- length of the non-fragmentable portion of the reassembled packet -/
  hdrlen : ℕ
  /-- the non-fragmentable portion is part of the packet -/
  hdrlen_le : hdrlen ≤ iobuf.len

/-- The callbacks of a fragment reassembler.
[include/ipxe/fragment.h:35-67] -/
structure FragmentReassembler where
  isFragment : Fragment → IoBuffer → ℕ → Bool
  fragmentOffset : IoBuffer → ℕ → ℕ
  moreFragments : IoBuffer → ℕ → Bool

/-- A reassembly buffer extended by the fragmentable part of `iobuf`.
[139-156] -/
def Fragment.extend (fragment : Fragment) (iobuf : IoBuffer) (hdrlen : ℕ) : Fragment where
  iobuf := fragment.iobuf.append (iobuf.iobPull hdrlen)
  hdrlen := fragment.hdrlen
  hdrlen_le := Nat.le_add_right_of_le fragment.hdrlen_le

/-- Replace the first element that satisfies `p`. -/
def replaceFirst {α : Type} (p : α → Bool) (a : α) : List α → List α
  | [] => []
  | b :: l => if p b then a :: l else b :: replaceFirst p a l

/-- Expire fragment reassembly buffer: the timer of the buffer at some place of the list has run out.
[46-56] -/
def fragmentExpired (list : List Fragment) (index : ℕ) : List Fragment := list.eraseIdx index

/-- Reassemble packet: the reassembled packet with the length of its
non-fragmentable portion (or nothing), and the list of reassembly buffers
afterwards.  `alloc` is the outcome of the one allocation the call may make.
[88-184] -/
def fragmentReassemble (fragments : FragmentReassembler) (list : List Fragment) (alloc : Bool)
    (iobuf : IoBuffer) (hdrlen : ℕ) (h : hdrlen ≤ iobuf.len) :
    Option (IoBuffer × ℕ) × List Fragment :=
  match list.find? fun fragment => fragments.isFragment fragment iobuf hdrlen with
  | none =>
    -- a first fragment opens a buffer, even when it is also the last one
    if fragments.fragmentOffset iobuf hdrlen = 0 ∧ alloc then
      (none, ⟨iobuf, hdrlen, h⟩ :: list)
    else (none, list)
  | some fragment =>
    -- out-of-order fragments are dropped, as is one that no buffer can be allocated for
    if fragments.fragmentOffset iobuf hdrlen = fragment.iobuf.len - fragment.hdrlen ∧ alloc then
      let extended := fragment.extend iobuf hdrlen
      if fragments.moreFragments iobuf hdrlen then
        (none, replaceFirst (fun f => fragments.isFragment f iobuf hdrlen) extended list)
      else
        (some (extended.iobuf, extended.hdrlen),
          list.eraseP fun f => fragments.isFragment f iobuf hdrlen)
    else (none, list)

/-- **A packet comes out of the reassembler only by using up a buffer**:
it is that buffer's packet followed by the fragmentable part of the fragment just
received. -/
theorem fragmentReassemble_some {fragments : FragmentReassembler} {list list' : List Fragment}
    {alloc : Bool} {iobuf iobuf' : IoBuffer} {hdrlen hdrlen' : ℕ} {h : hdrlen ≤ iobuf.len}
    (hr : fragmentReassemble fragments list alloc iobuf hdrlen h = (some (iobuf', hdrlen'), list')) :
    ∃ fragment ∈ list, iobuf' = fragment.iobuf.append (iobuf.iobPull hdrlen) ∧
      hdrlen' = fragment.hdrlen ∧
      list' = list.eraseP (fun f => fragments.isFragment f iobuf hdrlen) ∧
      list'.length < list.length := by
  unfold fragmentReassemble at hr
  cases hfind : list.find? fun fragment => fragments.isFragment fragment iobuf hdrlen with
  | none =>
    simp only [hfind] at hr
    split at hr <;> simp at hr
  | some fragment =>
    have hmem : fragment ∈ list := mem_of_find?_eq_some hfind
    have hlen := length_eraseP_of_mem hmem (List.find?_some hfind)
    have hpos := length_pos_of_mem hmem
    simp only [hfind] at hr
    split at hr
    · split at hr
      · simp at hr
      · simp only [Prod.mk.injEq, Option.some.injEq] at hr
        obtain ⟨⟨rfl, rfl⟩, rfl⟩ := hr
        exact ⟨fragment, hmem, rfl, rfl, rfl, by omega⟩
    · simp at hr

end Ipxe.Model
