import Ipxe.Analysis.DeflateSteps

/-!
# Input in chunks

The calls on the chunks of an input do what one call on all of it does, as long as the caller stops
at the call that finishes or fails.
-/

namespace Ipxe.Analysis

open Library Model Option List

variable (deflate : Deflate)

def inflaterOf (out : DeflateChunk) : Inflater :=
  { deflate.toDeflateRegs with
    label := deflate.entry
    out := out }

def inputOf (bytes : Bytes) : DeflateInput where
  accumulator := deflate.accumulator
  rotalumucca := deflate.rotalumucca
  bits := deflate.bits
  bytes := bytes

/-- The status that a run ends with. -/
def haltStatus {σ : Type} : Halt Inflater σ (Except Errno Unit) → DeflateStatus
  | .waiting _ _ => .incomplete
  | .stopped (.ok ()) _ _ => .finished
  | .stopped (.error rc) _ _ => .error rc

theorem pending_inputOf (bytes : Bytes) :
    (inputOf deflate bytes).pending = (inputOf deflate []).pending ++ bytesBits bytes := by
  simp [DeflateInput.pending, inputOf]

theorem InflaterSound.of_bytes {c : Inflater} {deflate : Deflate} {bytes : Bytes}
    (h : InflaterSound c (inputOf deflate bytes)) (bytes' : Bytes) :
    InflaterSound c (inputOf deflate bytes') :=
  ⟨⟨h.wf.bits_le, h.wf.accumulator_lt, h.wf.rotalumucca_eq⟩, h.extraBits_le, h.distanceCount_le,
    h.raw_lt, h.bits, h.ready⟩

variable (format : DeflateFormat)

theorem wf_deflateInit (bytes : Bytes) : (inputOf (deflateInit format) bytes).Wf := by
  refine ⟨?_, ?_, ?_⟩ <;> simp [inputOf, deflateInit, bitsOf]

theorem sound_deflateInit (out : DeflateChunk) :
    InflaterSound (inflaterOf (deflateInit format) out) (inputOf (deflateInit format) []) := by
  refine ⟨wf_deflateInit format [], ?_, ?_, ?_, ?_, ?_⟩
  · exact Nat.zero_le _
  · exact Nat.zero_le _
  · intro raw hraw
    have hzero : raw = 0 := eq_of_mem_replicate hraw
    omega
  · cases format <;> exact Nat.zero_le _
  · cases format <;> trivial

/-- **A call returns**, and what it returns is the end of the run on the pending string and the
bytes of its chunk.  If it waits, the next call takes up the run where it ended. -/
theorem pass_eq {caller : DeflateCaller}
    (hsound : InflaterSound (inflaterOf caller.deflate caller.out) (inputOf caller.deflate []))
    (chunk : Bytes) :
    ∃ after h, caller.pass chunk = some after ∧
      Halts bitStep (inflaterOf caller.deflate caller.out)
        ((inputOf caller.deflate []).pending ++ bytesBits chunk) h ∧
      after.out = h.control.out ∧ after.status = haltStatus h ∧
      (after.status = .incomplete →
        InflaterSound (inflaterOf after.deflate after.out) (inputOf after.deflate []) ∧
          h = .waiting (inflaterOf after.deflate after.out) (inputOf after.deflate []).pending) := by
  have hsound' := hsound.of_bytes chunk
  have hmap := fun n => @runFor_map Inflater DeflateInput (List Bool) (Except Errno Unit)
    (deflateStep inputSource) _ _ bitStep DeflateInput.pending InflaterSound
    (fun c s h => (deflateStep_refines h).eq)
    (fun c s c' s' h hstep => (deflateStep_refines h).next c' s' hstep) n hsound'
  have hfuel : bitMeasure (inflaterOf caller.deflate caller.out) (inputOf caller.deflate chunk).pending <
      inflateFuel (inputOf caller.deflate chunk) := by
    rw [bitMeasure, inflateFuel, length_pending]
    exact Nat.add_lt_add_left (labelRank_lt _) _
  obtain ⟨h, hrun⟩ := runFor_of_measure
    (fun c s c' s' (_ : True) hstep => ⟨trivial, bitStep_less hstep⟩) trivial hfuel
  -- the run on the string is the run of the call
  rw [hmap] at hrun
  obtain ⟨h₁, hrun₁, rfl⟩ := map_eq_some_iff.1 hrun
  have hhalts : Halts bitStep (inflaterOf caller.deflate caller.out)
      ((inputOf caller.deflate []).pending ++ bytesBits chunk) (h₁.map DeflateInput.pending) := by
    rw [← pending_inputOf]
    exact ⟨_, (hmap _).trans (by rw [hrun₁]; rfl)⟩
  have hpass : caller.pass chunk = some
      { deflate := (caller.deflate.returned { data := chunk } h₁).deflate
        out := (caller.deflate.returned { data := chunk } h₁).out
        status := (caller.deflate.returned { data := chunk } h₁).status } := by
    change Option.map _ (Option.map _ (runFor (deflateStep inputSource)
      (inflateFuel (inputOf caller.deflate chunk)) (inflaterOf caller.deflate caller.out)
      (inputOf caller.deflate chunk))) = _
    rw [hrun₁]
    rfl
  have hwaiting := runFor_invariant
    (fun c s c' s' h hstep => (deflateStep_refines h).next c' s' hstep)
    (fun c s h' h hstep => show ∀ c' s', h' = .waiting c' s' → InflaterSound c' s' ∧ s'.bytes = [] from
      fun c' s' heq => (deflateStep_refines h).waiting c' s' (heq ▸ hstep))
    hsound' hrun₁
  refine ⟨_, _, hpass, hhalts, ?_, ?_, ?_⟩
  · cases h₁ <;> rfl
  · cases h₁ with
    | waiting c s => rfl
    | stopped rc c s => cases rc <;> rfl
  · intro hincomplete
    cases h₁ with
    | waiting c s =>
      obtain ⟨hsound₁, hempty⟩ := hwaiting c s rfl
      obtain ⟨accumulator, rotalumucca, bits, bytes⟩ := s
      obtain rfl : bytes = [] := hempty
      exact ⟨hsound₁, rfl⟩
    | stopped rc c s => cases rc <;> cases hincomplete

theorem passUntilDone_eq (chunks : List Bytes) :
    ∀ {caller : DeflateCaller},
      InflaterSound (inflaterOf caller.deflate caller.out) (inputOf caller.deflate []) →
      ∀ chunk, ∃ after h, caller.passUntilDone (chunk :: chunks) = some after ∧
        Halts bitStep (inflaterOf caller.deflate caller.out)
          ((inputOf caller.deflate []).pending ++ bytesBits (chunk :: chunks).flatten) h ∧
        after.out = h.control.out ∧ after.status = haltStatus h := by
  induction chunks with
  | nil =>
    intro caller hsound chunk
    obtain ⟨after, h, hpass, hrun, hout, hstatus, -⟩ := pass_eq hsound chunk
    refine ⟨after, h, ?_, ?_, hout, hstatus⟩
    · simp only [DeflateCaller.passUntilDone, hpass, bind_some, ite_self]
    · rwa [flatten_singleton]
  | cons next chunks ih =>
    intro caller hsound chunk
    obtain ⟨after, h, hpass, hrun, hout, hstatus, hwait⟩ := pass_eq hsound chunk
    have haligned : (bytesBits (next :: chunks).flatten).length % 8 = 0 := by
      rw [length_bytesBits, Nat.mul_mod_right]
    have hext := bitStep_extensible haligned
    rw [flatten_cons, bytesBits_append, ← append_assoc, DeflateCaller.passUntilDone,
      hpass, bind_some]
    by_cases hincomplete : after.status = .incomplete
    · obtain ⟨hsound', rfl⟩ := hwait hincomplete
      obtain ⟨last, h', hlast, hrun', hout', hstatus'⟩ := ih hsound' next
      rw [if_pos hincomplete]
      exact ⟨last, h', hlast, (hext.halts_waiting hrun).2 hrun', hout', hstatus'⟩
    · rw [if_neg hincomplete]
      cases h with
      | waiting c s => exact absurd hstatus hincomplete
      | stopped rc c s =>
        exact ⟨after, .stopped rc c _, rfl, hext.halts_stopped hrun, hout,
          hstatus.trans (by cases rc <;> rfl)⟩

/-- **Chunking independence.**  The output and the status of the calls on consecutive chunks,
up to the one that finishes or fails, are those of a single call on all of the input. -/
theorem deflate_inflate_chunks (format : DeflateFormat) (out : DeflateChunk) (first : Bytes)
    (rest : List Bytes) :
    ∃ chunked whole,
      (DeflateCaller.start format out).passUntilDone (first :: rest) = some chunked ∧
      (DeflateCaller.start format out).pass (first :: rest).flatten = some whole ∧
      chunked.out = whole.out ∧ chunked.status = whole.status := by
  have hsound := sound_deflateInit format out
  obtain ⟨chunked, h, hchunked, hrun, hout, hstatus⟩ :=
    @passUntilDone_eq rest (DeflateCaller.start format out) hsound first
  obtain ⟨whole, h', hwhole, hrun', hout', hstatus', -⟩ :=
    @pass_eq (DeflateCaller.start format out) hsound (first :: rest).flatten
  obtain rfl := hrun.unique hrun'
  exact ⟨chunked, whole, hchunked, hwhole, hout.trans hout'.symm, hstatus.trans hstatus'.symm⟩

/-- A call behind the one that finished, and a call behind the one that failed, change the
status that the caller sees: an empty stored block, and a block of the reserved type. -/
theorem deflate_inflate_chunks_after_end :
    (((DeflateCaller.start .raw { data := [] }).passAll [[0x01, 0x00, 0x00, 0xff, 0xff], []]).map
        (·.status) = some .incomplete ∧
      ((DeflateCaller.start .raw { data := [] }).pass [0x01, 0x00, 0x00, 0xff, 0xff]).map
        (·.status) = some .finished) ∧
    (((DeflateCaller.start .raw { data := [] }).passAll [[0x07], []]).map (·.status) =
        some .incomplete ∧
      ((DeflateCaller.start .raw { data := [] }).pass [0x07]).map (·.status) =
        some (.error .enotsup)) := by
  decide +kernel

end Ipxe.Analysis
