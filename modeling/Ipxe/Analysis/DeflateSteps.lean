import Ipxe.Analysis.DeflateRefinement

/-!
# Steps on a string of bits

Every step uses up bits or comes closer to a label that does, and it does not mind bytes behind
its string (`bitStep_extensible`).  Both are read off what the labels read.
-/

namespace Ipxe.Analysis

open Library Model List Option

def bitMeasure (c : Inflater) (bits : List Bool) : ℕ := 8 * bits.length + labelRank c.label

section

variable {more : List Bool}

theorem read_stable (hmore : more.length % 8 = 0) (read : DeflateRead) (bits : List Bool) :
    bitSource.read read bits = (none, bits) ∨
      ∃ value rest, bitSource.read read bits = (some value, rest) ∧
        bitSource.read read (bits ++ more) = (some value, rest ++ more) ∧
        rest.length ≤ bits.length ∧ (Consumes read → rest.length < bits.length) := by
  have hlength : (bits ++ more).length = bits.length + more.length := length_append
  cases read with
  | nothing => exact .inr ⟨0, bits, rfl, rfl, le_rfl, False.elim⟩
  | discardToByte =>
    have hmod : (bits ++ more).length % 8 = bits.length % 8 := by omega
    refine .inr ⟨0, bits.drop (bits.length % 8), rfl, ?_, ?_, False.elim⟩
    · rw [← drop_append_of_le_length (Nat.mod_le _ _), ← hmod]
      rfl
    · rw [length_drop]
      exact Nat.sub_le _ _
  | extract target =>
    by_cases h : target ≤ bits.length
    · refine .inr ⟨_, _, if_pos h, ?_, ?_, fun hpos => ?_⟩
      · simp only [BitSource.read, bitSource, if_pos (h.trans (hlength ▸ Nat.le_add_right _ _)),
          take_append_of_le_length h, drop_append_of_le_length h]
      · rw [length_drop]
        exact Nat.sub_le _ _
      · have hpos : 0 < target := hpos
        rw [length_drop]
        omega
    · exact .inl (if_neg h)
  | decode alphabet =>
    cases hlen : codeLength alphabet.freqOf deflateHuffmanBits bits with
    | none => exact .inl (by simp only [BitSource.read, bitSource, hlen])
    | some len =>
      obtain ⟨⟨hpos, -⟩, hle, -⟩ := codeLength_eq_some_iff.1 hlen
      have hless : (bits.drop len).length < bits.length := by
        rw [length_drop]
        omega
      refine .inr ⟨_, bits.drop len, by simp only [BitSource.read, bitSource, hlen]; rfl, ?_,
        hless.le, fun _ => hless⟩
      simp only [BitSource.read, bitSource, codeLength_append hlen, take_append_of_le_length hle,
        drop_append_of_le_length hle]
  | accumulate =>
    by_cases h : 32 ≤ bits.length
    · refine .inr ⟨0, bits, ?_, ?_, le_rfl, False.elim⟩
      · simp only [BitSource.read, bitSource, if_pos h, map_some]
      · simp only [BitSource.read, bitSource, if_pos (h.trans (hlength ▸ Nat.le_add_right _ _)),
          map_some]
    · exact .inl (by simp only [BitSource.read, bitSource, if_neg h, map_none])

/-- **A step at a label but that of literal data** waits and changes nothing, or it does the same
with more bits behind; and if it goes on, the measure has become smaller. -/
theorem bitStep_cases {c : Inflater} (hlabel : c.label ≠ .literalData)
    (hmore : more.length % 8 = 0) (bits : List Bool) :
    bitStep c bits = .halt (.waiting c bits) ∨
      (∃ rc c' rest, bitStep c bits = .halt (.stopped rc c' rest) ∧
        bitStep c (bits ++ more) = .halt (.stopped rc c' (rest ++ more))) ∨
      ∃ c' rest, bitStep c bits = .next c' rest ∧ bitStep c (bits ++ more) = .next c' (rest ++ more) ∧
        bitMeasure c' rest < bitMeasure c bits := by
  rw [bitStep, deflateStep_eq_await bitSource hlabel, deflateStep_eq_await bitSource hlabel]
  obtain hnone | ⟨value, rest, hread, hlonger, hle, hless⟩ := read_stable hmore c.reads bits
  · rw [hnone]
    exact .inl rfl
  · rw [hread, hlonger, Outcome.await_some, Outcome.await_some]
    obtain ⟨rc, c', hstops⟩ | ⟨c', hnext, hrank⟩ := control_cases hlabel value
    · rw [hstops]
      exact .inr (.inl ⟨rc, c', rest, rfl, rfl⟩)
    · rw [hnext]
      refine .inr (.inr ⟨c', rest, rfl, rfl, ?_⟩)
      have hbound : labelRank c'.label < 8 := labelRank_lt c'.label
      rw [bitMeasure, bitMeasure]
      rcases hrank with hconsumes | hrank
      · have := hless hconsumes
        omega
      · omega

end

theorem length_copyBytes (read : Bytes → ℕ → UInt8) (len outOffset offset : ℕ)
    (data : Bytes) : (copyBytes read len outOffset offset data).length = data.length := by
  induction len generalizing outOffset offset data with
  | zero => rfl
  | succ len ih => rw [copyBytes, ih, length_set]

variable (out : DeflateChunk)

theorem length_deflateCopy (read : Bytes → ℕ → UInt8) (offset len : ℕ) :
    (deflateCopy out read offset len).data.length = out.data.length := by
  rw [deflateCopy]
  split_ifs
  · exact length_copyBytes _ _ _ _ _
  · rfl

theorem getElem?_copyBytes_readFrom (bytes : Bytes) (len outOffset offset : ℕ)
    (data : Bytes) (hroom : outOffset + len ≤ data.length) (i : ℕ) :
    (copyBytes (readFrom bytes) len outOffset offset data)[i]? =
      if outOffset ≤ i ∧ i < outOffset + len then some (bytes.getD (offset + (i - outOffset)) 0)
      else data[i]? := by
  induction len generalizing outOffset offset data with
  | zero => rw [copyBytes, if_neg (by omega)]
  | succ len ih =>
    rw [copyBytes, ih _ _ _ (by rw [length_set]; omega)]
    by_cases hfirst : i = outOffset
    · subst hfirst
      rw [if_neg (by omega), if_pos (by omega), getElem?_set_self (by omega), Nat.sub_self]
      rfl
    · by_cases hinside : outOffset + 1 ≤ i ∧ i < outOffset + 1 + len
      · rw [if_pos hinside, if_pos (by omega),
          show offset + 1 + (i - (outOffset + 1)) = offset + (i - outOffset) by omega]
      · rw [if_neg hinside, if_neg (by omega), getElem?_set_ne (Ne.symm hfirst)]

theorem getElem?_deflateCopy_readFrom (bytes : Bytes) (i : ℕ) :
    (deflateCopy out (readFrom bytes) 0 bytes.length).data[i]? =
      if out.offset ≤ i ∧ i < out.offset + bytes.length ∧ i < out.data.length then
        some (bytes.getD (i - out.offset) 0)
      else out.data[i]? := by
  rw [deflateCopy]
  by_cases hroom : out.offset < out.data.length
  · rw [if_pos hroom, getElem?_copyBytes_readFrom _ _ _ _ _ (by omega), zero_add]
    exact if_congr (by omega) rfl rfl
  · rw [if_neg hroom, if_neg (by omega)]

theorem deflateCopy_append (front back : Bytes) :
    deflateCopy out (readFrom (front ++ back)) 0 (front ++ back).length =
      deflateCopy (deflateCopy out (readFrom front) 0 front.length) (readFrom back) 0 back.length := by
  have hdata : (deflateCopy out (readFrom (front ++ back)) 0 (front ++ back).length).data =
      (deflateCopy (deflateCopy out (readFrom front) 0 front.length) (readFrom back) 0
        back.length).data := by
    apply ext_getElem?
    intro i
    have hoffset : (deflateCopy out (readFrom front) 0 front.length).offset =
      out.offset + front.length := rfl
    rw [getElem?_deflateCopy_readFrom, getElem?_deflateCopy_readFrom, length_deflateCopy, hoffset,
      getElem?_deflateCopy_readFrom, length_append]
    by_cases hback : out.offset + front.length ≤ i ∧
        i < out.offset + front.length + back.length ∧ i < out.data.length
    · rw [if_pos (by omega), if_pos hback, getD_append_right _ _ _ _ (by omega), Nat.sub_sub]
    · rw [if_neg hback]
      by_cases hfront : out.offset ≤ i ∧ i < out.offset + front.length ∧ i < out.data.length
      · rw [if_pos (by omega), if_pos hfront, getD_append _ _ _ _ (by omega)]
      · rw [if_neg (by omega), if_neg hfront]
  have hoffset : (deflateCopy out (readFrom (front ++ back)) 0 (front ++ back).length).offset =
      (deflateCopy (deflateCopy out (readFrom front) 0 front.length) (readFrom back) 0
        back.length).offset := by
    change out.offset + (front ++ back).length = out.offset + front.length + back.length
    rw [length_append, add_assoc]
  exact congrArg₂ DeflateChunk.mk hdata hoffset

/-- Where literal data stands once some of it has been copied. -/
def literalTaken (c : Inflater) (bits : List Bool) : Inflater :=
  { c with
    out :=
      deflateCopy c.out (readFrom (takeBytes c.remaining bits).1) 0
        (takeBytes c.remaining bits).1.length
    remaining := c.remaining - (takeBytes c.remaining bits).1.length }

variable {c : Inflater}

theorem bitStep_literalData (hlabel : c.label = .literalData) (bits : List Bool) :
    bitStep c bits =
      if (literalTaken c bits).remaining ≠ 0 then
        .halt (.waiting (literalTaken c bits) (takeBytes c.remaining bits).2)
      else (literalTaken c bits).goto (takeBytes c.remaining bits).2 .blockDone := by
  rw [bitStep, deflateStep, hlabel]
  rfl

theorem literalTaken_append (c : Inflater) (bits more : List Bool) :
    literalTaken c (bits ++ more) =
      literalTaken (literalTaken c bits) ((takeBytes c.remaining bits).2 ++ more) := by
  rw [literalTaken, takeBytes_append, deflateCopy_append, length_append, ← Nat.sub_sub]
  rfl

/-- Literal data that is there in two parts is taken from one and then from the other. -/
theorem bitStep_literalData_append (hlabel : c.label = .literalData) (bits more : List Bool) :
    bitStep c (bits ++ more) =
      bitStep (literalTaken c bits) ((takeBytes c.remaining bits).2 ++ more) := by
  rw [bitStep_literalData hlabel, bitStep_literalData (show (literalTaken c bits).label = _ from hlabel),
    literalTaken_append, takeBytes_append]
  rfl

theorem bitStep_literalData_done (hlabel : c.label = .literalData)
    (hdone : c.remaining = 0) (bits : List Bool) : bitStep c bits = c.goto bits .blockDone := by
  have hcopy : deflateCopy c.out (readFrom []) 0 0 = c.out := by
    rw [deflateCopy]
    simp [copyBytes, ite_self]
  have hsame : literalTaken c bits = c := by
    simp only [literalTaken, hdone, takeBytes, length_nil, hcopy, Nat.sub_zero]
    rw [← hdone]
  rw [bitStep_literalData hlabel, hsame, hdone]
  rfl

/-- **Bytes behind the string do not matter to a step.** -/
theorem bitStep_extensible {more : List Bool} (hmore : more.length % 8 = 0) :
    Extensible bitStep (· ++ more) where
  next := by
    intro c bits c' bits' h
    by_cases hlabel : c.label = .literalData
    · rw [bitStep_literalData hlabel] at h
      split_ifs at h with hleft
      obtain ⟨rfl, rfl⟩ := h
      have hlabel' : (literalTaken c bits).label = .literalData := hlabel
      rw [bitStep_literalData_append hlabel, bitStep_literalData_done hlabel' (not_not.1 hleft)]
      rfl
    · obtain hwaits | ⟨rc, c₁, rest, hstops, -⟩ | ⟨c₁, rest, hnext, hlonger, -⟩ :=
        bitStep_cases hlabel hmore bits
      · cases hwaits.symm.trans h
      · cases hstops.symm.trans h
      · cases hnext.symm.trans h
        exact hlonger
  stopped := by
    intro c bits result c' bits' h
    by_cases hlabel : c.label = .literalData
    · rw [bitStep_literalData hlabel] at h
      split_ifs at h <;> cases h
    · obtain hwaits | ⟨rc, c₁, rest, hstops, hlonger⟩ | ⟨c₁, rest, hnext, -⟩ :=
        bitStep_cases hlabel hmore bits
      · cases hwaits.symm.trans h
      · cases hstops.symm.trans h
        exact hlonger
      · cases hnext.symm.trans h
  waiting := by
    intro c bits c' bits' h
    by_cases hlabel : c.label = .literalData
    · rw [bitStep_literalData hlabel] at h
      split_ifs at h
      · obtain ⟨rfl, rfl⟩ := h
        exact bitStep_literalData_append hlabel bits more
      · cases h
    · obtain hwaits | ⟨rc, c₁, rest, hstops, -⟩ | ⟨c₁, rest, hnext, -⟩ :=
        bitStep_cases hlabel hmore bits
      · cases hwaits.symm.trans h
        rfl
      · cases hstops.symm.trans h
      · cases hnext.symm.trans h

theorem bitStep_less {c' : Inflater} {bits bits' : List Bool} (h : bitStep c bits = .next c' bits') :
    bitMeasure c' bits' < bitMeasure c bits := by
  by_cases hlabel : c.label = .literalData
  · rw [bitStep_literalData hlabel] at h
    have hlength := length_takeBytes c.remaining bits
    split_ifs at h
    obtain ⟨rfl, rfl⟩ := h
    simp only [bitMeasure, hlabel, labelRank]
    omega
  · obtain hwaits | ⟨rc, c₁, rest, hstops, -⟩ | ⟨c₁, rest, hnext, -, hless⟩ :=
      @bitStep_cases [] c hlabel rfl bits
    · cases hwaits.symm.trans h
    · cases hstops.symm.trans h
    · cases hnext.symm.trans h
      exact hless

end Ipxe.Analysis
