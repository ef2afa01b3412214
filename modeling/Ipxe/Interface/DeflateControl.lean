import Ipxe.Model.Deflate

/-!
# What a label reads, and what it does then

At every label but one the decompressor reads at most once.  What it does then depends on the value
and not on where the value comes from, so that it can be read off a source that only has the value.
-/

namespace Ipxe.Model

open Library

inductive DeflateRead where
  | nothing
  | discardToByte
  | extract (target : ℕ)
  | decode (alphabet : Alphabet)
  | accumulate

/-- What the decompressor reads at its label. -/
def Inflater.reads (c : Inflater) : DeflateRead :=
  match c.label with
  | .zlibHeader | .literalLen | .literalNlen => .extract 16
  | .blockHeader => .extract 3
  | .dynamicHeader => .extract 14
  | .dynamicCodelen => if c.lengthIndex < c.lengthTarget then .extract 3 else .nothing
  | .dynamicLitlenDistance | .lzhufDistance => .decode c.distanceCodelen
  | .lzhufLitlen => .decode c.litlen
  | .dynamicLitlenDistanceExtra | .lzhufLitlenExtra | .lzhufDistanceExtra => .extract c.extraBits
  | .literalBlock | .zlibFooter => .discardToByte
  | .zlibAdler32 => .accumulate
  | _ => .nothing

def BitSource.read {σ : Type} (src : BitSource σ) : DeflateRead → σ → Option ℕ × σ
  | .nothing, s => (some 0, s)
  | .discardToByte, s => (some 0, src.discardToByte s)
  | .extract target, s => src.extract target s
  | .decode alphabet, s => src.decode alphabet s
  | .accumulate, s => ((src.accumulate 32 s).1.map fun _ => 0, (src.accumulate 32 s).2)

/-- A source that has one value. -/
def valueSource (value : ℕ) : BitSource Unit where
  extract _ _ := (some value, ())
  decode _ _ := (some value, ())
  accumulate _ _ := (some (), ())
  discardToByte _ := ()
  literal _ _ := ([], ())

/-- What becomes of the control state once a value has been read. -/
def Inflater.control (c : Inflater) (value : ℕ) : DeflateOutcome Unit :=
  deflateStep (valueSource value) c ()

/-- **A step reads, and then does what depends on the value alone.** -/
theorem deflateStep_eq_await {σ : Type} (src : BitSource σ) {c : Inflater}
    (hlabel : c.label ≠ .literalData) (s : σ) :
    deflateStep src c s = Outcome.await c (src.read c.reads s) fun value s =>
      (c.control value).map fun _ => s := by
  obtain ⟨regs, label, out⟩ := c
  cases label with
  | literalData => exact absurd rfl hlabel
  | literalBlock | staticBlock | zlibFooter | finished => rfl
  | literalLen | dynamicHeader | dynamicLitlenDistance | lzhufLitlenExtra | lzhufDistance => rfl
  | zlibAdler32 =>
    dsimp only [deflateStep, Inflater.zlibAdler32, Inflater.reads, BitSource.read, Outcome.await]
    cases (src.accumulate 32 s).1 <;> rfl
  | zlibHeader | literalNlen | dynamicLitlenDistanceExtra | lzhufDistanceExtra =>
    dsimp only [deflateStep, Inflater.zlibHeader, Inflater.literalNlen,
      Inflater.dynamicLitlenDistanceExtra, Inflater.lzhufDistanceExtra, Inflater.reads,
      BitSource.read, Inflater.control, valueSource]
    rcases src.extract _ s with ⟨_ | value, s⟩
    · rfl
    · dsimp only [Outcome.await]
      split_ifs <;> rfl
  | blockHeader =>
    dsimp only [deflateStep, Inflater.blockHeader, Inflater.reads, BitSource.read,
      Inflater.control, valueSource]
    rcases src.extract _ s with ⟨_ | header, s⟩
    · rfl
    · dsimp only [Outcome.await]
      split <;> rfl
  | lzhufLitlen =>
    dsimp only [deflateStep, Inflater.lzhufLitlen, Inflater.reads, BitSource.read,
      Inflater.control, valueSource]
    rcases src.decode _ s with ⟨_ | code, s⟩
    · rfl
    · dsimp only [Outcome.await]
      split_ifs <;> rfl
  | dynamicCodelen =>
    dsimp only [deflateStep, Inflater.dynamicCodelen, Inflater.reads, Inflater.control]
    split_ifs
    · rfl
    · dsimp only [BitSource.read, Outcome.await]
      rcases deflateAlphabet _ _ _ _ with ⟨alphabet, _ | _⟩ <;> rfl
  | constructAlphabets =>
    dsimp only [deflateStep, Inflater.constructAlphabets, Inflater.reads, Inflater.control,
      BitSource.read, Outcome.await]
    rcases deflateAlphabet _ _ _ _ with ⟨litlen, _ | _⟩
    · rfl
    · dsimp only
      rcases deflateAlphabet _ _ _ _ with ⟨distance, _ | _⟩ <;> rfl
  | blockDone =>
    dsimp only [deflateStep, Inflater.blockDone, Inflater.reads, Inflater.control, BitSource.read,
      Outcome.await]
    split_ifs
    · rfl
    · cases regs.format <;> rfl

/-- How many labels can follow without reading a bit. -/
@[simp] def labelRank : DeflateLabel → ℕ
  | .literalData => 4
  | .blockDone => 3
  | .zlibFooter | .staticBlock | .dynamicLitlenDistanceExtra => 2
  | .zlibAdler32 | .literalBlock | .constructAlphabets | .dynamicCodelen | .lzhufLitlenExtra
  | .lzhufDistanceExtra => 1
  | _ => 0

theorem labelRank_lt (label : DeflateLabel) : labelRank label < 8 := by cases label <;> decide

/-- What uses up bits when it is read. -/
def Consumes : DeflateRead → Prop
  | .extract target => 0 < target
  | .decode _ => True
  | _ => False

/-- What has been read leads to an end, or to a label from which fewer labels can follow, unless it
used up bits. -/
theorem control_cases {c : Inflater} (hlabel : c.label ≠ .literalData) (value : ℕ) :
    (∃ rc c', c.control value = .halt (.stopped rc c' ())) ∨
      ∃ c', c.control value = .next c' () ∧
        (Consumes c.reads ∨ labelRank c'.label < labelRank c.label) := by
  obtain ⟨regs, label, out⟩ := c
  cases label with
  | literalData => exact absurd rfl hlabel
  | finished => exact .inl ⟨_, _, rfl⟩
  | literalBlock | staticBlock | zlibFooter | zlibAdler32 | lzhufLitlenExtra =>
    exact .inr ⟨_, rfl, .inr (by simp)⟩
  | literalLen | dynamicHeader => exact .inr ⟨_, rfl, .inl (Nat.succ_pos _)⟩
  | dynamicLitlenDistance | lzhufDistance => exact .inr ⟨_, rfl, .inl trivial⟩
  | zlibHeader | literalNlen =>
    dsimp only [Inflater.control, deflateStep, Inflater.zlibHeader, Inflater.literalNlen,
      valueSource, Outcome.await]
    split_ifs <;> first
      | exact .inl ⟨_, _, rfl⟩
      | exact .inr ⟨_, rfl, .inl (Nat.succ_pos _)⟩
  | blockHeader =>
    dsimp only [Inflater.control, deflateStep, Inflater.blockHeader, valueSource, Outcome.await]
    split <;> first
      | exact .inr ⟨_, rfl, .inl (Nat.succ_pos _)⟩
      | exact .inl ⟨_, _, rfl⟩
  | lzhufLitlen =>
    dsimp only [Inflater.control, deflateStep, Inflater.lzhufLitlen, valueSource, Outcome.await]
    split_ifs <;> exact .inr ⟨_, rfl, .inl trivial⟩
  | dynamicLitlenDistanceExtra | lzhufDistanceExtra =>
    dsimp only [Inflater.control, deflateStep, Inflater.dynamicLitlenDistanceExtra,
      Inflater.lzhufDistanceExtra, valueSource, Outcome.await]
    split_ifs <;> first
      | exact .inr ⟨_, rfl, .inr (by simp)⟩
      | exact .inl ⟨_, _, rfl⟩
  | dynamicCodelen =>
    dsimp only [Inflater.control, deflateStep, Inflater.dynamicCodelen, Inflater.reads]
    split_ifs
    · exact .inr ⟨_, rfl, .inl (Nat.succ_pos _)⟩
    · rcases deflateAlphabet _ _ _ _ with ⟨alphabet, _ | _⟩
      · exact .inl ⟨_, _, rfl⟩
      · exact .inr ⟨_, rfl, .inr (by simp)⟩
  | constructAlphabets =>
    dsimp only [Inflater.control, deflateStep, Inflater.constructAlphabets]
    rcases deflateAlphabet _ _ _ _ with ⟨litlen, _ | _⟩
    · exact .inl ⟨_, _, rfl⟩
    · dsimp only
      rcases deflateAlphabet _ _ _ _ with ⟨distance, _ | _⟩
      · exact .inl ⟨_, _, rfl⟩
      · exact .inr ⟨_, rfl, .inr (by simp)⟩
  | blockDone =>
    dsimp only [Inflater.control, deflateStep, Inflater.blockDone]
    split_ifs
    · exact .inr ⟨_, rfl, .inr (by simp)⟩
    · cases regs.format <;> exact .inr ⟨_, rfl, .inr (by simp)⟩

end Ipxe.Model
