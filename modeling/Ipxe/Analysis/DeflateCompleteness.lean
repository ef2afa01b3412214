import Ipxe.Analysis.DeflateBlocks
import Ipxe.Analysis.DeflateChunks

/-!
# Which streams are decompressed

A valid stream is decompressed exactly if no block describes several distances that are not a
complete code.
-/

namespace Ipxe.Analysis

open Library Model Interface List
open DeflateStream (shown bitsFrom ValidFrom)

section

variable {buffer output : Bytes} {c : Inflater}

theorem bitStep_blockDone_more (hlabel : c.label = .blockDone) (hmore : c.header &&& 1 = 0)
    (bits : List Bool) : bitStep c bits = .next { c with label := .blockHeader } bits := by
  rw [bitStep, deflateStep, hlabel]
  rw [Inflater.blockDone, if_pos hmore]
  rfl

theorem halts_blockDone_last (hlabel : c.label = .blockDone) (hlast : c.header &&& 1 = 1)
    (hformat : c.format = .raw) (bits : List Bool) :
    Halts bitStep c bits (.stopped (.ok ()) { c with label := .finished } bits) := by
  have hstep : bitStep c bits = .next { c with label := .finished } bits := by
    rw [bitStep, deflateStep, hlabel]
    rw [Inflater.blockDone, if_neg (by rw [hlast]; decide), hformat]
    rfl
  exact (halts_next hstep).2 ((halts_halt rfl).2 rfl)

/-- **Streams.**  The run on the bits of a valid stream ends behind it if all blocks are
supported, and in an error otherwise. -/
theorem stream_runs {last : Block} (blocks : List Block) :
    ∀ {position : ℕ} {output : Bytes} {c : Inflater}, ValidFrom last position output blocks →
      c.label = .blockHeader → Steady buffer output c → ∀ {rest : List Bool},
      (position + (bitsFrom last blocks ++ rest).length) % 8 = 0 →
      if (∀ block ∈ blocks, block.Supported) ∧ last.Supported then
        ∃ c', Halts bitStep c (bitsFrom last blocks ++ rest) (.stopped (.ok ()) c' rest) ∧
          Shows buffer (last.expand (blocks.foldl Block.expand output)) c'.out
      else ∃ c' bits, Halts bitStep c (bitsFrom last blocks ++ rest)
        (.stopped (.error .einval) c' bits) := by
  induction blocks with
  | nil =>
    intro position output c hvalid hlabel hsteady rest haligned
    have hblock := block_runs hvalid true hlabel hsteady haligned
    by_cases hsupported : last.Supported
    · rw [if_pos ⟨fun _ hmem => absurd hmem not_mem_nil, hsupported⟩]
      rw [if_pos hsupported] at hblock
      obtain ⟨c', hreach, hdone, hheader, hsteady'⟩ := hblock
      exact ⟨_, hreach.halts (halts_blockDone_last hdone hheader hsteady'.format rest),
        hsteady'.shows⟩
    · rw [if_neg fun h => hsupported h.2]
      rw [if_neg hsupported] at hblock
      exact hblock
  | cons block blocks ih =>
    intro position output c hvalid hlabel hsteady rest haligned
    rw [bitsFrom, append_assoc] at haligned ⊢
    have hblock := block_runs hvalid.1 false hlabel hsteady haligned
    by_cases hsupported : block.Supported
    · rw [if_pos hsupported] at hblock
      obtain ⟨c', hreach, hdone, hheader, hsteady'⟩ := hblock
      have hnext := hreach.trans (Reaches.next (bitStep_blockDone_more hdone hheader
        (bitsFrom last blocks ++ rest)))
      have hothers := ih (c := { c' with label := .blockHeader }) hvalid.2 rfl
        ⟨hsteady'.format, hsteady'.litlen_raw, hsteady'.distance_raw, hsteady'.shows⟩
        (by rw [length_append] at haligned; rw [add_assoc]; exact haligned)
      rw [if_congr (and_congr_left fun _ => forall_mem_cons.trans
        (and_iff_right hsupported)) rfl rfl]
      split_ifs at hothers ⊢ with hrest
      · obtain ⟨c₂, hrun, hshows⟩ := hothers
        exact ⟨c₂, hnext.halts hrun, hshows⟩
      · obtain ⟨c₂, bits, hrun⟩ := hothers
        exact ⟨c₂, bits, hnext.halts hrun⟩
    · rw [if_neg fun h => hsupported (h.1 block mem_cons_self)]
      rw [if_neg hsupported] at hblock
      exact hblock

end

theorem deflateInflate_of_halts {format : DeflateFormat} {input buffer : Bytes}
    {h : Halt Inflater (List Bool) (Except Errno Unit)}
    (hrun : Halts bitStep (inflaterOf (deflateInit format) { data := buffer }) (bytesBits input) h) :
    ∃ r, deflateInflate (deflateInit format) { data := input } { data := buffer } = some r ∧
      r.status = haltStatus h ∧ r.out = h.control.out := by
  obtain ⟨after, h', hpass, hrun', hout, hstatus, -⟩ := @pass_eq
    (DeflateCaller.start format { data := buffer }) (sound_deflateInit format _) input
  obtain rfl := Halts.unique hrun hrun'
  obtain ⟨r, hr, rfl⟩ := Option.map_eq_some_iff.1 hpass
  exact ⟨r, hr, hstatus, hout⟩

/-- **A valid stream is decompressed exactly if its blocks are supported.** -/
theorem deflate_inflate_complete (stream : DeflateStream) (hvalid : stream.Valid)
    (input : Bytes) (rest : List Bool) (hinput : bytesBits input = stream.bits ++ rest)
    (buffer : Bytes) :
    ∃ r, deflateInflate (deflateInit .raw) { data := input } { data := buffer } = some r ∧
      ((r.status = .finished ∧
          r.out = { data := shown buffer stream.output, offset := stream.output.length }) ↔
        stream.Supported) := by
  have hlen : (stream.bits ++ rest).length % 8 = 0 := by
    rw [← hinput, length_bytesBits]
    exact Nat.mul_mod_right _ _
  have hsteady : Steady buffer [] (inflaterOf (deflateInit .raw) { data := buffer }) :=
    ⟨rfl, length_replicate, length_replicate, by rw [Shows, shown_nil]; rfl⟩
  have hstream := stream_runs stream.blocks hvalid rfl hsteady
    (by rw [zero_add]; exact hlen)
  rw [← DeflateStream.bits, ← hinput] at hstream
  by_cases hsupported : (∀ block ∈ stream.blocks, block.Supported) ∧ stream.last.Supported
  · rw [if_pos hsupported] at hstream
    obtain ⟨c', hrun, hshows⟩ := hstream
    obtain ⟨r, hr, hstatus, hout⟩ := deflateInflate_of_halts hrun
    exact ⟨r, hr, iff_of_true ⟨hstatus, hout.trans hshows⟩ hsupported⟩
  · rw [if_neg hsupported] at hstream
    obtain ⟨c', bits, hrun⟩ := hstream
    obtain ⟨r, hr, hstatus, hout⟩ := deflateInflate_of_halts hrun
    refine ⟨r, hr, iff_of_false (fun h => ?_) hsupported⟩
    rw [hstatus] at h
    cases h.1

/-- One block for two bytes and a copy of three, with the lengths of the distances and the
items that describe them. -/
def oneDistance (dist : List ℕ) (distanceCode : ℕ) : DeflateStream where
  blocks := []
  last := .dynamic
    { sent := [0, 0, 2, 2, 0, 0, 0, 0, 0, 0, 0, 0, 0, 0, 0, 2, 0, 2]
      items := [.repeatZeroLong 86, .length 2, .length 2, .repeatZeroLong 127, .repeatZeroLong 8,
        .length 2, .length 2] ++ dist.map .length
      codes :=
        { litlen := List.replicate 97 0 ++ [2, 2] ++ List.replicate 157 0 ++ [2, 2]
          dist := dist } }
    [.literal 97, .literal 98, .copy 0 0 distanceCode 0]

/-- A single distance is described, the first one. -/
theorem deflate_inflate_complete_first_distance :
    ((oneDistance [1] 0).Valid ∧ (oneDistance [1] 0).Supported) ∧
    ∃ r, deflateInflate (deflateInit .raw)
        { data := [13, 192, 1, 9, 0, 0, 0, 128, 160, 173, 245, 127, 68, 137, 11] }
        { data := [0, 0, 0, 0, 0, 0] } = some r ∧
      ((r.status = .finished ∧
          r.out = { data := shown [0, 0, 0, 0, 0, 0] (oneDistance [1] 0).output,
                    offset := (oneDistance [1] 0).output.length }) ↔
        (oneDistance [1] 0).Supported) :=
  ⟨by decide +kernel, deflate_inflate_complete (oneDistance [1] 0) (by decide +kernel) _
    [false, false, false] (by decide +kernel) _⟩

/-- Two distances are described, and the second one is used. -/
theorem deflate_inflate_second_distance :
    (oneDistance [0, 1] 1).Valid ∧
    bytesBits [13, 193, 1, 9, 0, 0, 0, 128, 160, 173, 245, 127, 68, 33, 46] =
      (oneDistance [0, 1] 1).bits ++ [false] ∧
    (oneDistance [0, 1] 1).output = [97, 98, 97, 98, 97] ∧
    (deflateInflate (deflateInit .raw)
        { data := [13, 193, 1, 9, 0, 0, 0, 128, 160, 173, 245, 127, 68, 33, 46] }
        { data := [0, 0, 0, 0, 0, 0] }).map (fun r => (r.status, r.out)) =
      some (.error .einval, { data := [0, 0, 0, 0, 0, 0] }) := by
  decide +kernel

end Ipxe.Analysis
