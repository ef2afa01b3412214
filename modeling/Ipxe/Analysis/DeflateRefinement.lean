import Ipxe.Analysis.DeflateInput
import Ipxe.Interface.DeflateControl

/-!
# The program decompresses the pending string

Every step of the decompressor is a step of the machine on the pending string of bits.  What
carries this is `InflaterSound`: a label reads the same from both, and what it does then keeps it.
-/

namespace Ipxe.Analysis

open Library Model List

/-- The bits that the accumulators may hold. -/
def BitsFit (label : DeflateLabel) (bits : ℕ) : Prop :=
  match label with
  | .literalLen | .literalNlen => bits % 8 = 0 ∧ bits ≤ 16
  | .literalData => bits = 0
  | .zlibAdler32 => bits % 8 = 0
  | .finished => True
  | _ => bits ≤ 22

/-- The alphabets that have been constructed. -/
def Ready (c : Inflater) : Prop :=
  match c.label with
  | .dynamicLitlenDistance | .dynamicLitlenDistanceExtra => ∃ lens, c.distanceCodelen.Tables lens
  | .lzhufLitlen | .lzhufLitlenExtra | .lzhufDistance | .lzhufDistanceExtra =>
    (∃ lens, c.litlen.Tables lens) ∧ ∃ lens, c.distanceCodelen.Tables lens
  | _ => True

structure InflaterSound (c : Inflater) (s : DeflateInput) : Prop where
  wf : s.Wf
  extraBits_le : c.extraBits ≤ 14
  distanceCount_le : c.distanceCount ≤ 32
  raw_lt : ∀ raw ∈ c.distanceCodelen.raw, raw < 32
  bits : BitsFit c.label s.bits
  ready : Ready c

/-- A step and the step on the pending string; what holds afterwards. -/
structure Refines (out : DeflateOutcome DeflateInput) (bitOut : DeflateOutcome (List Bool)) :
    Prop where
  eq : bitOut = out.map DeflateInput.pending
  next : ∀ c s, out = .next c s → InflaterSound c s
  waiting : ∀ c s, out = .halt (.waiting c s) → InflaterSound c s ∧ s.bytes = []

variable {c : Inflater} {s : DeflateInput}

theorem refines_next (hsound : InflaterSound c s) :
    Refines (.next c s) (.next c s.pending) where
  eq := rfl
  next := by
    rintro c' s' ⟨rfl, rfl⟩
    exact hsound
  waiting := fun _ _ h => nomatch h

theorem refines_waiting (hsound : InflaterSound c s) (hempty : s.bytes = []) :
    Refines (.halt (.waiting c s)) (.halt (.waiting c s.pending)) where
  eq := rfl
  next := fun _ _ h => nomatch h
  waiting := by
    rintro c' s' ⟨rfl, rfl⟩
    exact ⟨hsound, hempty⟩

theorem refines_await {α : Type} {read : Option α × DeflateInput}
    {bitRead : Option α × List Bool} (hread : ReadsAs bitRead read)
    (hwait : read.1 = none → InflaterSound c read.2) {go : α → DeflateInput → DeflateOutcome DeflateInput}
    {bitGo : α → List Bool → DeflateOutcome (List Bool)}
    (hgo : ∀ value, read.1 = some value → Refines (go value read.2) (bitGo value read.2.pending)) :
    Refines (Outcome.await c read go) (Outcome.await c bitRead bitGo) := by
  obtain ⟨value, s⟩ := read
  rw [hread.eq]
  cases value with
  | none => exact refines_waiting (hwait rfl) (hread.drained rfl)
  | some value => exact hgo value rfl

/-- The bits that the accumulators may hold once a label has read what it reads. -/
def BitsLeft (label : DeflateLabel) (bits : ℕ) : Prop :=
  match label with
  | .literalBlock => bits % 8 = 0 ∧ bits ≤ 16
  | .literalLen | .literalNlen => bits = 0
  | .zlibFooter => bits % 8 = 0
  | .zlibAdler32 | .finished => True
  | _ => bits ≤ 22

/-- What is read at a label, and the bits that are there then. -/
structure LabelReads (label : DeflateLabel) (bitRead : Option ℕ × List Bool)
    (read : Option ℕ × DeflateInput) : Prop extends ReadsAs bitRead read where
  fit : read.1 = none → BitsFit label read.2.bits
  left : ∀ value, read.1 = some value → BitsLeft label read.2.bits

section

variable {c : Inflater} {s : DeflateInput} (h : InflaterSound c s)
include h

theorem reads_extract {target : ℕ} (htarget : target ≤ 16) (hfit : BitsFit c.label = (· ≤ 22))
    (hleft : BitsLeft c.label = (· ≤ 22)) :
    LabelReads c.label (bitSource.extract target s.pending) (inputSource.extract target s) := by
  have hbits := (deflateExtract_bits h.wf htarget).1 (by simpa [hfit] using h.bits)
  exact ⟨deflateExtract_reads h.wf (by omega), fun _ => by rwa [hfit], fun _ _ => by rwa [hleft]⟩

theorem reads_decode {alphabet : Alphabet} (htables : ∃ lens, alphabet.Tables lens)
    (hfit : BitsFit c.label = (· ≤ 22)) (hleft : BitsLeft c.label = (· ≤ 22)) :
    LabelReads c.label (bitSource.decode alphabet s.pending) (inputSource.decode alphabet s) := by
  obtain ⟨lens, htables⟩ := htables
  have hbits := @deflateDecode_bits alphabet s h.wf (by simpa [hfit] using h.bits)
  exact ⟨deflateDecode_reads htables h.wf, fun _ => by rwa [hfit], fun _ _ => by rwa [hleft]⟩

theorem reads_field (hfit : BitsFit c.label = fun bits => bits % 8 = 0 ∧ bits ≤ 16)
    (hleft : BitsLeft c.label = (· = 0)) :
    LabelReads c.label (bitSource.extract 16 s.pending) (inputSource.extract 16 s) := by
  have hbits : s.bits % 8 = 0 ∧ s.bits ≤ 16 := by simpa [hfit] using h.bits
  have hcases := (deflateExtract_bits h.wf le_rfl).2 hbits.1 hbits.2 rfl
  refine ⟨deflateExtract_reads h.wf (by omega), fun hnone => ?_, fun value hvalue => ?_⟩
  · rw [if_pos hnone] at hcases
    rwa [hfit]
  · rw [if_neg (by rw [hvalue]; simp)] at hcases
    rwa [hleft]

theorem label_reads (hlabel : c.label ≠ .literalData) :
    LabelReads c.label (bitSource.read c.reads s.pending) (inputSource.read c.reads s) := by
  have hextra : c.extraBits ≤ 16 := h.extraBits_le.trans (by omega)
  have hready := h.ready
  have hbits := h.bits
  have hdiscard : ReadsAs (some 0, bitSource.discardToByte s.pending)
      (some 0, inputSource.discardToByte s) :=
    ⟨by rw [deflateDiscardToByte_pending h.wf], deflateDiscardToByte_wf h.wf, nofun⟩
  obtain ⟨regs, label, out⟩ := c
  cases label with
  | literalData => exact absurd rfl hlabel
  | zlibHeader | blockHeader | dynamicHeader => exact reads_extract h (by decide) rfl rfl
  | dynamicLitlenDistanceExtra | lzhufLitlenExtra | lzhufDistanceExtra =>
    exact reads_extract h hextra rfl rfl
  | dynamicLitlenDistance => exact reads_decode h hready rfl rfl
  | lzhufLitlen => exact reads_decode h hready.1 rfl rfl
  | lzhufDistance => exact reads_decode h hready.2 rfl rfl
  | literalLen | literalNlen => exact reads_field h rfl rfl
  | staticBlock | constructAlphabets | blockDone | finished =>
    exact ⟨⟨rfl, h.wf, nofun⟩, nofun, fun _ _ => hbits⟩
  | dynamicCodelen =>
    dsimp only [Inflater.reads]
    split_ifs
    · exact reads_extract h (by decide) rfl rfl
    · exact ⟨⟨rfl, h.wf, nofun⟩, nofun, fun _ _ => hbits⟩
  | literalBlock =>
    refine ⟨hdiscard, nofun, fun _ _ => ?_⟩
    have hbits : s.bits ≤ 22 := hbits
    change _ % 8 = 0 ∧ _ ≤ 16
    dsimp only [BitSource.read, Inflater.reads]
    rw [deflateDiscardToByte_bits]
    omega
  | zlibFooter =>
    refine ⟨hdiscard, nofun, fun _ _ => ?_⟩
    change _ % 8 = 0
    dsimp only [BitSource.read, Inflater.reads]
    rw [deflateDiscardToByte_bits]
    omega
  | zlibAdler32 =>
    obtain ⟨⟨heq, hwf, hdrained⟩, haligned⟩ := accumulate_reads h.wf hbits
    refine ⟨⟨?_, hwf, fun hnone => hdrained (Option.map_eq_none_iff.1 hnone)⟩, fun _ => haligned,
      fun _ _ => trivial⟩
    dsimp only [BitSource.read, Inflater.reads]
    rw [heq]

/-! ## What becomes of the control state -/

theorem control_sound (hlabel : c.label ≠ .literalData) {value : ℕ}
    (hvalue : c.label = .lzhufDistance → value < 32) {c' : Inflater}
    (hnext : c.control value = .next c' ()) {s' : DeflateInput} (hwf : s'.Wf)
    (hleft : BitsLeft c.label s'.bits) : InflaterSound c' s' := by
  obtain ⟨-, hextra, hcount, hraw, -, hready⟩ := h
  obtain ⟨regs, label, out⟩ := c
  cases label with
  | literalData => exact absurd rfl hlabel
  | finished => cases hnext
  | literalBlock | zlibFooter | zlibAdler32 =>
    cases hnext
    exact ⟨hwf, hextra, hcount, hraw, hleft, trivial⟩
  | lzhufLitlenExtra =>
    cases hnext
    exact ⟨hwf, hextra, hcount, hraw, hleft, hready⟩
  | literalLen =>
    cases hnext
    refine ⟨hwf, hextra, hcount, hraw, ?_, trivial⟩
    have hleft : s'.bits = 0 := hleft
    change _ % 8 = 0 ∧ _ ≤ 16
    omega
  | staticBlock =>
    cases hnext
    exact ⟨hwf, hextra, le_rfl, hraw, hleft, trivial⟩
  | dynamicHeader =>
    cases hnext
    exact ⟨hwf, hextra, Nat.succ_le_succ Nat.and_le_right, hraw, hleft, trivial⟩
  | lzhufDistance =>
    cases hnext
    have hlt := hvalue rfl
    refine ⟨hwf, ?_, hcount, hraw, hleft, hready⟩
    change distanceExtraBits value ≤ 14
    rw [distanceExtraBits]
    split_ifs <;> omega
  | zlibHeader | literalNlen | dynamicLitlenDistanceExtra | lzhufDistanceExtra =>
    dsimp only [Inflater.control, deflateStep, Inflater.zlibHeader, Inflater.literalNlen,
      Inflater.dynamicLitlenDistanceExtra, Inflater.lzhufDistanceExtra, valueSource,
      Outcome.await] at hnext
    split_ifs at hnext <;> cases hnext <;> first
      | exact ⟨hwf, hextra, hcount, hraw, hleft, hready⟩
      | exact ⟨hwf, hextra, hcount, hraw, hleft, trivial⟩
  | blockHeader =>
    dsimp only [Inflater.control, deflateStep, Inflater.blockHeader, valueSource, Outcome.await] at hnext
    split at hnext <;> cases hnext <;> exact ⟨hwf, hextra, hcount, hraw, hleft, trivial⟩
  | blockDone =>
    dsimp only [Inflater.control, deflateStep, Inflater.blockDone] at hnext
    split_ifs at hnext
    · cases hnext
      exact ⟨hwf, hextra, hcount, hraw, hleft, trivial⟩
    · cases hformat : regs.format <;> rw [hformat] at hnext <;> cases hnext
      · exact ⟨hwf, hextra, hcount, hraw, trivial, trivial⟩
      · exact ⟨hwf, hextra, hcount, hraw, hleft, trivial⟩
  | dynamicLitlenDistance =>
    cases hnext
    have hrepeat : [2, 3, 7].getD (value - 16) 0 ≤ 14 := by
      rcases value - 16 with _ | _ | _ | _ <;> simp
    by_cases hlen : value < 16
    · simp only [if_pos hlen]
      exact ⟨hwf, Nat.zero_le _, hcount, hraw, hleft, hready⟩
    · simp only [if_neg hlen]
      exact ⟨hwf, hrepeat, hcount, hraw, hleft, hready⟩
  | lzhufLitlen =>
    dsimp only [Inflater.control, deflateStep, Inflater.lzhufLitlen, valueSource, Outcome.await] at hnext
    split_ifs at hnext with hliteral hend hlength
    · cases hnext
      exact ⟨hwf, hextra, hcount, hraw, hleft, hready⟩
    · cases hnext
      exact ⟨hwf, hextra, hcount, hraw, hleft, trivial⟩
    · cases hnext
      refine ⟨hwf, ?_, hcount, hraw, hleft, hready⟩
      change litlenExtraBits (value - deflateLitlenEnd - 1) ≤ 14
      rw [litlenExtraBits]
      split_ifs <;> omega
    · cases hnext
      exact ⟨hwf, Nat.zero_le _, hcount, hraw, hleft, hready⟩
  | dynamicCodelen =>
    have hbuilt := deflateAlphabet_raw_lt regs.lengths regs.distanceCodelen
      (deflateCodelenMaxCode + 1) 0 hraw (by decide)
    have hok := deflateAlphabet_ok regs.lengths regs.distanceCodelen (deflateCodelenMaxCode + 1) 0
    dsimp only [Inflater.control, deflateStep, Inflater.dynamicCodelen] at hnext
    split_ifs at hnext
    · cases hnext
      exact ⟨hwf, hextra, hcount, hraw, hleft, trivial⟩
    · generalize deflateAlphabet regs.lengths _ _ _ = built at hbuilt hok hnext
      obtain ⟨alphabet, _ | _⟩ := built <;> cases hnext
      exact ⟨hwf, hextra, hcount, hbuilt, hleft, _, (hok rfl).2⟩
  | constructAlphabets =>
    dsimp only [Inflater.control, deflateStep, Inflater.constructAlphabets] at hnext
    have hsize : (Inflater.mk regs .constructAlphabets out).distanceLengths.2.1 ≤ 32 := by
      rw [Inflater.distanceLengths]
      split_ifs
      · exact Nat.le_add_left 2 30
      · exact hcount
    generalize (Inflater.mk regs .constructAlphabets out).distanceLengths = distance at hsize hnext
    obtain ⟨lengths, count, offset⟩ := distance
    have hlitlen := deflateAlphabet_ok regs.lengths regs.litlen regs.litlenCount 0
    have hdistance := deflateAlphabet_ok lengths regs.distanceCodelen count offset
    have hbuilt := deflateAlphabet_raw_lt lengths regs.distanceCodelen count offset hraw hsize
    generalize deflateAlphabet regs.lengths _ _ _ = litlen at hlitlen hnext
    generalize deflateAlphabet lengths _ _ _ = distance at hdistance hbuilt hnext
    obtain ⟨litlen, _ | _⟩ := litlen
    · cases hnext
    · obtain ⟨distance, _ | _⟩ := distance <;> cases hnext
      exact ⟨hwf, hextra, hcount, hbuilt, hleft, ⟨_, (hlitlen rfl).2⟩, _, (hdistance rfl).2⟩

theorem refines_literalData (hlabel : c.label = .literalData) :
    Refines (c.literalData inputSource s) (c.literalData bitSource s.pending) := by
  have hbits : s.bits = 0 := by simpa [hlabel, BitsFit] using h.bits
  have hwf := literal_wf h.wf c.remaining
  rw [Inflater.literalData, Inflater.literalData, literal_reads hbits]
  change Refines (if c.remaining - (s.bytes.take c.remaining).length ≠ 0 then _ else _)
    (if c.remaining - (s.bytes.take c.remaining).length ≠ 0 then _ else _)
  split_ifs with hmore
  · -- less than the whole of the data: the chunk has been used up
    rw [length_take] at hmore
    exact refines_waiting
      ⟨hwf, h.extraBits_le, h.distanceCount_le, h.raw_lt, h.bits, h.ready⟩
      (drop_of_length_le (by omega))
  · refine refines_next ⟨hwf, h.extraBits_le, h.distanceCount_le, h.raw_lt, ?_, trivial⟩
    change s.bits ≤ 22
    omega

end

/-- **A step of the program is a step on the pending string.** -/
theorem deflateStep_refines (h : InflaterSound c s) :
    Refines (deflateStep inputSource c s) (bitStep c s.pending) := by
  by_cases hlabel : c.label = .literalData
  · rw [bitStep, deflateStep, deflateStep, hlabel]
    exact refines_literalData h hlabel
  · have hread := label_reads h hlabel
    rw [bitStep, deflateStep_eq_await _ hlabel, deflateStep_eq_await _ hlabel]
    refine refines_await hread.toReadsAs (fun hnone => ?_) fun value hvalue => ?_
    · exact ⟨hread.wf, h.extraBits_le, h.distanceCount_le, h.raw_lt, hread.fit hnone, h.ready⟩
    · have hless : c.label = .lzhufDistance → value < 32 := by
        intro hdistance
        rw [Inflater.reads, hdistance] at hvalue
        exact decode_lt h.raw_lt (by decide) hvalue
      obtain ⟨rc, c', hstops⟩ | ⟨c', hnext, -⟩ := control_cases hlabel value
      · rw [hstops]
        exact ⟨rfl, nofun, nofun⟩
      · have hsound := control_sound h hlabel hless hnext hread.wf (hread.left value hvalue)
        rw [hnext]
        exact refines_next hsound

end Ipxe.Analysis
