import Ipxe.Analysis.DeflateTables

/-!
# The accumulators

Both accumulators hold the same string.  A code word is found by the table for quick lookup, even
where less than its longest length has been accumulated.
-/

namespace Ipxe.Analysis

open Library Model List
open DeflateInput

variable (rest : Bytes) {target : ℕ}

theorem deflateReverse_eq (byte : UInt8) : deflateReverse byte.toNat = msbValue (byteBits byte) := by
  have hall : ∀ n < 256, deflateReverse n = msbValue (bitsOf 8 n) := by decide +kernel
  exact hall byte.toNat byte.toNat_lt

section

variable {input : DeflateInput} (hwf : input.Wf) (hroom : input.bits ≤ 24)
include hwf hroom

variable (byte : UInt8)

theorem addByte_accumulator (rest : Bytes) :
    (input.addByte byte rest).accumulator = input.accumulator + 2 ^ input.bits * byte.toNat := by
  have hlt : input.accumulator + 2 ^ input.bits * byte.toNat < 2 ^ 32 :=
    (add_two_pow_mul_lt hwf.accumulator_lt byte.toNat_lt).trans_le
      (Nat.pow_le_pow_right (by norm_num) (by omega))
  change (input.accumulator ||| byte.toNat <<< input.bits) % 2 ^ 32 = _
  rw [Nat.or_comm, ← Nat.shiftLeft_add_eq_or_of_lt hwf.accumulator_lt, Nat.shiftLeft_eq, mul_comm,
    add_comm, Nat.mod_eq_of_lt hlt]

theorem bitsOf_addByte (rest : Bytes) :
    bitsOf (input.bits + 8) (input.addByte byte rest).accumulator =
      bitsOf input.bits input.accumulator ++ byteBits byte := by
  rw [addByte_accumulator hwf hroom, bitsOf_add hwf.accumulator_lt byte.toNat_lt]
  rfl

theorem addByte_rotalumucca (rest : Bytes) :
    (input.addByte byte rest).rotalumucca =
      msbValue (bitsOf input.bits input.accumulator ++ byteBits byte) *
        2 ^ (32 - (input.bits + 8)) := by
  obtain ⟨value, hvalue⟩ : ∃ value, value = msbValue (bitsOf input.bits input.accumulator) := ⟨_, rfl⟩
  have hrev : msbValue (byteBits byte) < 2 ^ 8 := by simpa using msbValue_lt (byteBits byte)
  have hold : input.rotalumucca = value <<< 8 <<< (24 - input.bits) := by
    rw [hwf.rotalumucca_eq, ← hvalue, ← Nat.shiftLeft_add, Nat.shiftLeft_eq,
      show 8 + (24 - input.bits) = 32 - input.bits by omega]
  have hlt := msbValue_lt (bitsOf input.bits input.accumulator ++ byteBits byte)
  rw [msbValue_append, length_byteBits, ← hvalue, length_append, length_bitsOf] at hlt
  change (input.rotalumucca ||| deflateReverse byte.toNat <<< (24 - input.bits)) % 2 ^ 32 = _
  rw [msbValue_append, length_byteBits, ← hvalue, hold, deflateReverse_eq,
    ← Nat.shiftLeft_or_distrib, ← Nat.shiftLeft_add_eq_or_of_lt hrev, Nat.shiftLeft_eq,
    Nat.shiftLeft_eq, mul_comm value, show 32 - (input.bits + 8) = 24 - input.bits by omega,
    Nat.mod_eq_of_lt]
  calc (2 ^ 8 * value + msbValue (byteBits byte)) * 2 ^ (24 - input.bits)
      < 2 ^ (input.bits + 8) * 2 ^ (24 - input.bits) :=
        Nat.mul_lt_mul_of_pos_right hlt (Nat.two_pow_pos _)
    _ = 2 ^ 32 := by rw [← pow_add]; congr 1; omega

theorem addByte_wf (rest : Bytes) : (input.addByte byte rest).Wf where
  bits_le := by
    change input.bits + 8 ≤ 32
    omega
  accumulator_lt := by
    rw [addByte_accumulator hwf hroom]
    exact add_two_pow_mul_lt hwf.accumulator_lt byte.toNat_lt
  rotalumucca_eq := by
    rw [addByte_rotalumucca hwf hroom]
    change _ = msbValue (bitsOf (input.bits + 8) (input.addByte byte rest).accumulator) * _
    rw [bitsOf_addByte hwf hroom]
    rfl

theorem addByte_pending (rest : Bytes) :
    (input.addByte byte rest).pending =
      bitsOf input.bits input.accumulator ++ bytesBits (byte :: rest) := by
  change bitsOf (input.bits + 8) (input.addByte byte rest).accumulator ++ bytesBits rest = _
  rw [bitsOf_addByte hwf hroom, append_assoc]
  rfl

end

/-- No byte is added to more than 24 bits. -/
def Fits (target : ℕ) (input : DeflateInput) : Prop :=
  target ≤ 25 ∨ input.bits % 8 = 0 ∧ target ≤ 32

variable {input : DeflateInput}

theorem Fits.bits_le (hfits : Fits target input)
    (hmore : input.bits < target) : input.bits ≤ 24 := by
  rcases hfits with hsmall | ⟨haligned, hle⟩ <;> omega

structure Accumulated (target : ℕ) (input result : DeflateInput) : Prop where
  wf : result.Wf
  pending : result.pending = input.pending
  drained : result.bits < target → result.bytes = []
  bits_mod : result.bits % 8 = input.bits % 8
  bits_le : result.bits ≤ max input.bits (target + 7)

theorem accumulateFrom_spec (target : ℕ) (bytes : Bytes) :
    ∀ {input : DeflateInput}, input.Wf → input.bytes = bytes → Fits target input →
      Accumulated target input (accumulateFrom target bytes input) := by
  induction bytes with
  | nil =>
    intro input hwf hbytes _
    exact ⟨hwf, rfl, fun _ => hbytes, rfl, le_max_left _ _⟩
  | cons byte rest ih =>
    intro input hwf hbytes hfits
    rw [accumulateFrom]
    split_ifs with hmore
    · have hroom := hfits.bits_le hmore
      have hfits' : Fits target (input.addByte byte rest) := by
        rcases hfits with hsmall | ⟨haligned, hle⟩
        · exact .inl hsmall
        · refine .inr ⟨?_, hle⟩
          change (input.bits + 8) % 8 = 0
          omega
      have hrest := ih (addByte_wf hwf hroom byte rest) rfl hfits'
      refine ⟨hrest.wf, ?_, hrest.drained, ?_, ?_⟩
      · rw [hrest.pending, addByte_pending hwf hroom, DeflateInput.pending, hbytes]
      · rw [hrest.bits_mod]
        change (input.bits + 8) % 8 = _
        omega
      · refine hrest.bits_le.trans ?_
        change max (input.bits + 8) (target + 7) ≤ _
        omega
    · exact ⟨hwf, rfl, fun hless => absurd hless hmore, rfl, le_max_left _ _⟩

theorem deflateAccumulate_spec (hwf : input.Wf) (hfits : Fits target input) :
    Accumulated target input (input.deflateAccumulate target) :=
  accumulateFrom_spec target input.bytes hwf rfl hfits

theorem length_pending (input : DeflateInput) :
    input.pending.length = input.bits + 8 * input.bytes.length := by
  rw [DeflateInput.pending, length_append, length_bitsOf, length_bytesBits]

theorem rotalumucca_lt (hwf : input.Wf) : input.rotalumucca < 2 ^ 32 := by
  have hle := hwf.bits_le
  have hlt := msbValue_lt (bitsOf input.bits input.accumulator)
  rw [length_bitsOf] at hlt
  rw [hwf.rotalumucca_eq]
  calc msbValue (bitsOf input.bits input.accumulator) * 2 ^ (32 - input.bits)
      < 2 ^ input.bits * 2 ^ (32 - input.bits) :=
        Nat.mul_lt_mul_of_pos_right hlt (Nat.two_pow_pos _)
    _ = 2 ^ 32 := by rw [← pow_add]; congr 1; omega

section

variable {input : DeflateInput} (hwf : input.Wf) {count : ℕ} (hcount : count ≤ input.bits)
include hwf hcount

theorem consume_value : (input.deflateConsume count).1 = lsbValue (input.pending.take count) := by
  have htake : input.pending.take count = (bitsOf input.bits input.accumulator).take count :=
    take_append_of_le_length (by rwa [length_bitsOf])
  change input.accumulator &&& (1 <<< count - 1) = _
  rw [htake, lsbValue_take, lsbValue_bitsOf_of_lt hwf.accumulator_lt, Nat.one_shiftLeft,
    Nat.and_two_pow_sub_one_eq_mod]

theorem bitsOf_consume :
    bitsOf (input.bits - count) (input.accumulator >>> count) =
      (bitsOf input.bits input.accumulator).drop count := by
  rw [drop_bitsOf hwf.accumulator_lt hcount, Nat.shiftRight_eq_div_pow]

theorem consume_pending : (input.deflateConsume count).2.pending = input.pending.drop count := by
  have hdrop : input.pending.drop count =
      (bitsOf input.bits input.accumulator).drop count ++ bytesBits input.bytes :=
    drop_append_of_le_length (by rwa [length_bitsOf])
  rw [hdrop, ← bitsOf_consume hwf hcount]
  rfl

theorem consume_wf : (input.deflateConsume count).2.Wf where
  bits_le := (Nat.sub_le _ _).trans hwf.bits_le
  accumulator_lt := by
    change input.accumulator >>> count < 2 ^ (input.bits - count)
    rw [Nat.shiftRight_eq_div_pow, Nat.div_lt_iff_lt_mul (Nat.two_pow_pos _), ← pow_add,
      Nat.sub_add_cancel hcount]
    exact hwf.accumulator_lt
  rotalumucca_eq := by
    have hbits := hwf.bits_le
    change (input.rotalumucca <<< count) % 2 ^ 32 =
      msbValue (bitsOf (input.bits - count) (input.accumulator >>> count)) *
        2 ^ (32 - (input.bits - count))
    -- what is shifted out at the top are the bits that were consumed
    rw [bitsOf_consume hwf hcount, msbValue_drop, length_bitsOf, hwf.rotalumucca_eq,
      Nat.shiftLeft_eq, mul_assoc, ← pow_add,
      show 32 - input.bits + count = 32 - (input.bits - count) by omega,
      show (2 : ℕ) ^ 32 = 2 ^ (input.bits - count) * 2 ^ (32 - (input.bits - count)) by
        rw [← pow_add]; congr 1; omega,
      Nat.mul_mod_mul_right]

end

/-- A read is the read of the pending string, and it waits with the chunk used up. -/
structure ReadsAs {α : Type} (bitRead : Option α × List Bool) (read : Option α × DeflateInput) :
    Prop where
  eq : bitRead = (read.1, read.2.pending)
  wf : read.2.Wf
  drained : read.1 = none → read.2.bytes = []

theorem deflateExtract_cases (hwf : input.Wf) (htarget : target ≤ 25) :
    ∃ result, Accumulated target input result ∧
      (result.bits < target ∧ inputSource.extract target input = (none, result) ∨
        target ≤ result.bits ∧ inputSource.extract target input =
          (some (result.deflateConsume target).1, (result.deflateConsume target).2)) := by
  by_cases hzero : target = 0
  · subst hzero
    have hvalue : (input.deflateConsume 0).1 = 0 := Nat.and_zero _
    have hsame : (input.deflateConsume 0).2 = input := by
      simp only [deflateConsume, Nat.shiftRight_zero, Nat.shiftLeft_zero, Nat.sub_zero,
        Nat.mod_eq_of_lt (rotalumucca_lt hwf)]
    refine ⟨input, ⟨hwf, rfl, fun hless => absurd hless (Nat.not_lt_zero _), rfl, le_max_left _ _⟩,
      .inr ⟨Nat.zero_le _, ?_⟩⟩
    rw [hvalue, hsame]
    rfl
  · refine ⟨input.deflateAccumulate target, deflateAccumulate_spec hwf (.inl htarget), ?_⟩
    change _ ∧ deflateExtract target input = _ ∨ _ ∧ deflateExtract target input = _
    simp only [deflateExtract, if_neg hzero]
    rcases lt_or_ge (input.deflateAccumulate target).bits target with hless | henough
    · exact .inl ⟨hless, if_pos hless⟩
    · exact .inr ⟨henough, if_neg (not_lt.2 henough)⟩

theorem deflateExtract_reads (hwf : input.Wf) (htarget : target ≤ 25) :
    ReadsAs (bitSource.extract target input.pending) (inputSource.extract target input) := by
  obtain ⟨result, hacc, ⟨hless, hread⟩ | ⟨henough, hread⟩⟩ := deflateExtract_cases hwf htarget
  · have hlength := length_pending result
    have hempty := hacc.drained hless
    rw [hempty, length_nil, mul_zero] at hlength
    rw [hread, ← hacc.pending]
    refine ⟨?_, hacc.wf, fun _ => hempty⟩
    simp only [bitSource, if_neg (show ¬ target ≤ result.pending.length by omega)]
  · have hlength := length_pending result
    rw [hread, ← hacc.pending]
    refine ⟨?_, consume_wf hacc.wf henough, fun hnone => by cases hnone⟩
    simp only [bitSource, if_pos (show target ≤ result.pending.length by omega),
      consume_value hacc.wf henough, consume_pending hacc.wf henough]

theorem deflateExtract_bits (hwf : input.Wf) (htarget : target ≤ 16) :
    (input.bits ≤ 22 → (inputSource.extract target input).2.bits ≤ 22) ∧
      (input.bits % 8 = 0 → input.bits ≤ 16 → target = 16 →
        if (inputSource.extract target input).1 = none then
          (inputSource.extract target input).2.bits % 8 = 0 ∧
            (inputSource.extract target input).2.bits ≤ 16
        else (inputSource.extract target input).2.bits = 0) := by
  obtain ⟨result, hacc, ⟨hless, hread⟩ | ⟨henough, hread⟩⟩ :=
    deflateExtract_cases hwf (show target ≤ 25 by omega)
  · have hmod := hacc.bits_mod
    rw [hread]
    dsimp only
    rw [if_pos rfl]
    omega
  · have hmod := hacc.bits_mod
    have hle := hacc.bits_le
    have hbits : (result.deflateConsume target).2.bits = result.bits - target := rfl
    rw [hread, hbits]
    rw [if_neg (by simp)]
    omega

/-! ## Code words -/

section

variable {alphabet : Alphabet} {lens : List ℕ} (htables : alphabet.Tables lens)
include htables

/-- The table is searched downwards from a length that no longer word can be found at. -/
theorem searchDown_eq {huf : ℕ} (index : ℕ) (hindex : index < 15) :
    ∃ len, (1 ≤ len ∧ len ≤ index + 1) ∧ searchDown huf alphabet.huf index = alphabet.symbols len ∧
      firstCode (lengthCount lens) len * 2 ^ (16 - len) ≤ huf ∧
      ∀ longer, len < longer → longer ≤ index + 1 →
        huf < firstCode (lengthCount lens) longer * 2 ^ (16 - longer) := by
  have hstart : ∀ len, 1 ≤ len → len ≤ 15 → (alphabet.symbols len).start =
      firstCode (lengthCount lens) len * 2 ^ (16 - len) := fun len hpos hle => by
    rw [htables.symbols_eq len hpos hle, hufEntry]
  induction index with
  | zero =>
    refine ⟨1, ⟨le_rfl, le_rfl⟩, rfl, ?_, fun longer hlt hle => by omega⟩
    simp [firstCode]
  | succ index ih =>
    change ∃ len, _ ∧ (if huf < (alphabet.symbols (index + 2)).start then _ else
      alphabet.symbols (index + 2)) = _ ∧ _
    rw [hstart (index + 2) (by omega) (by omega)]
    split_ifs with hbehind
    · obtain ⟨len, hrange, hfound, hle, hlonger⟩ := ih (by omega)
      refine ⟨len, ⟨hrange.1, by omega⟩, hfound, hle, fun longer hlt hle' => ?_⟩
      rcases lt_or_ge longer (index + 2) with hbefore | hlast
      · exact hlonger longer hlt (by omega)
      · obtain rfl : longer = index + 2 := by omega
        exact hbehind
    · exact ⟨index + 2, ⟨by omega, le_rfl⟩, rfl, not_lt.1 hbehind, fun longer hlt hle => by omega⟩

/-- **Quick lookup finds** the longest length whose words do not all come behind. -/
theorem find_eq {huf : ℕ} (hhuf : huf < 2 ^ 16) :
    ∃ len, (1 ≤ len ∧ len ≤ 15) ∧ alphabet.find huf = alphabet.symbols len ∧
      firstCode (lengthCount lens) len * 2 ^ (16 - len) ≤ huf ∧
      ∀ longer, len < longer → longer ≤ 15 →
        huf < firstCode (lengthCount lens) longer * 2 ^ (16 - longer) := by
  have hbegins : huf >>> deflateHuffmanQlShift = huf / 2 ^ 9 := Nat.shiftRight_eq_div_pow _ _
  obtain ⟨top, htop, hvalue, hlonger⟩ := htables.lookup_eq (huf / 2 ^ 9) (by omega)
  obtain ⟨len, hrange, hfound, hle, hbelow⟩ := searchDown_eq htables (top - 1) (by omega)
  refine ⟨len, ⟨hrange.1, by omega⟩, ?_, hle, fun longer hlt hle' => ?_⟩
  · rw [Alphabet.find, hbegins, hvalue, hfound]
  · rcases lt_or_ge top longer with habove | hinside
    · -- the prefix of the word is behind already
      exact lt_of_not_ge fun hge =>
        absurd (hlonger longer habove hle') (not_lt.2 (Nat.div_le_div_right hge))
    · exact hbelow longer hlt (by omega)

theorem freqOf_eq {len : ℕ} (hle : len ≤ 15) : alphabet.freqOf len = lengthCount lens len := by
  rw [Alphabet.freqOf]
  split_ifs with hzero
  · rw [hzero, lengthCount_zero]
  · rw [htables.symbols_eq len (by omega) hle, hufEntry]

omit htables in
theorem huf_div {input : DeflateInput} (hwf : input.Wf) {len : ℕ} (hlen : len ≤ 16)
    (hbits : len ≤ input.bits) :
    input.rotalumucca >>> 16 / 2 ^ (16 - len) = msbValue (input.pending.take len) := by
  have hle := hwf.bits_le
  have htake : input.pending.take len = (bitsOf input.bits input.accumulator).take len :=
    take_append_of_le_length (by rwa [length_bitsOf])
  rw [htake, msbValue_take, length_bitsOf, hwf.rotalumucca_eq, Nat.shiftRight_eq_div_pow,
    Nat.div_div_eq_div_mul, ← pow_add,
    show 16 + (16 - len) = (32 - input.bits) + (input.bits - len) by omega, pow_add,
    mul_comm, Nat.mul_div_mul_left _ _ (Nat.two_pow_pos _)]

theorem find_of_codeLength {input : DeflateInput} (hwf : input.Wf) {len : ℕ}
    (hlen : codeLength (lengthCount lens) 15 input.pending = some len) (hbits : len ≤ input.bits) :
    alphabet.find (input.rotalumucca >>> 16) = alphabet.symbols len := by
  have hhuf : input.rotalumucca >>> 16 < 2 ^ 16 := by
    have hlt := rotalumucca_lt hwf
    omega
  obtain ⟨⟨hpos, hle⟩, -, hlast, -⟩ := codeLength_eq_some_iff.1 hlen
  have hfirst := firstCode_le_of_codeLength (lengthCount_zero lens) hlen
  rw [← huf_div hwf (by omega) hbits] at hlast hfirst
  rw [Nat.le_div_iff_mul_le (Nat.two_pow_pos _)] at hfirst
  rw [Nat.div_lt_iff_lt_mul (Nat.two_pow_pos _)] at hlast
  obtain ⟨found, ⟨hfpos, hfle⟩, hfind, hstart, hlonger⟩ := find_eq htables hhuf
  rcases lt_trichotomy found len with hless | rfl | hmore
  · exact absurd hfirst (not_le.2 (hlonger len hless hle))
  · exact hfind
  · -- longer words come behind everything that begins with a word of this length
    have hbehind := Nat.mul_le_mul_right (2 ^ (16 - found))
      (two_pow_mul_endCode_le (lengthCount lens) hmore)
    rw [mul_right_comm, ← pow_add, show found - len + (16 - found) = 16 - len by omega, mul_comm]
      at hbehind
    omega

/-- Where no word is complete, what is found is longer than what has been accumulated. -/
theorem lt_find_of_codeLength_eq_none {input : DeflateInput} (hwf : input.Wf)
    (hnone : codeLength (lengthCount lens) 15 input.pending = none) :
    input.bits < (alphabet.find (input.rotalumucca >>> 16)).bits := by
  have hlength := length_pending input
  have hshort := length_lt_of_codeLength_eq_none (by omega) htables.complete hnone
  have hhuf : input.rotalumucca >>> 16 < 2 ^ 16 := by
    have hlt := rotalumucca_lt hwf
    omega
  obtain ⟨found, ⟨hfpos, hfle⟩, hfind, hstart, hlonger⟩ := find_eq htables hhuf
  rw [hfind, htables.symbols_eq found hfpos hfle]
  change input.bits < found
  by_contra henough
  rw [not_lt] at henough
  have hend := codeLength_eq_none_iff.1 hnone found hfpos hfle (by omega)
  rw [← huf_div hwf (by omega) henough, Nat.le_div_iff_mul_le (Nat.two_pow_pos _)] at hend
  have hnext := hlonger (found + 1) (by omega) (by omega)
  rw [firstCode_succ, mul_comm 2, mul_assoc, ← pow_succ',
    show 16 - (found + 1) + 1 = 16 - found by omega] at hnext
  omega

theorem bitSource_decode (bits : List Bool) :
    bitSource.decode alphabet bits = match codeLength (lengthCount lens) 15 bits with
      | some len =>
        (some (alphabet.rawAt (alphabet.symbols len) (msbValue (bits.take len))), bits.drop len)
      | none => (none, bits) := by
  rw [← codeLength_congr fun len hle => freqOf_eq htables hle]
  rfl

/-- **Decoding reads the word at the front of the pending string.** -/
theorem deflateDecode_reads {input : DeflateInput} (hwf : input.Wf) :
    ReadsAs (bitSource.decode alphabet input.pending) (inputSource.decode alphabet input) := by
  have hacc := deflateAccumulate_spec hwf (.inl (by omega) : Fits 15 input)
  simp only [bitSource_decode htables, inputSource, deflateDecode, ← hacc.pending,
    show deflateHuffmanBits = 15 from rfl]
  generalize input.deflateAccumulate 15 = result at hacc ⊢
  have hlength := length_pending result
  cases hlen : codeLength (lengthCount lens) 15 result.pending with
  | some len =>
    obtain ⟨⟨hpos, hle⟩, hinside, -⟩ := codeLength_eq_some_iff.1 hlen
    have hbits : len ≤ result.bits := by
      rcases lt_or_ge result.bits 15 with hless | henough
      · rw [hacc.drained hless, length_nil] at hlength
        omega
      · omega
    have hentry := htables.symbols_eq len hpos hle
    rw [find_of_codeLength htables hacc.wf hlen hbits, if_neg (by rw [hentry]; exact not_lt.2 hbits)]
    have hsize : (alphabet.symbols len).bits = len := by rw [hentry]; rfl
    have hshift : (alphabet.symbols len).shift = 16 - len := by rw [hentry]; rfl
    rw [hsize, hshift]
    refine ⟨?_, consume_wf hacc.wf hbits, fun hnone => by cases hnone⟩
    rw [consume_pending hacc.wf hbits, Nat.shiftRight_eq_div_pow _ (16 - len),
      huf_div hacc.wf (by omega) hbits]
  | none =>
    have hshort := length_lt_of_codeLength_eq_none (by omega) htables.complete hlen
    have hempty := hacc.drained (by omega)
    rw [if_pos (lt_find_of_codeLength_eq_none htables hacc.wf hlen)]
    exact ⟨rfl, hacc.wf, fun _ => hempty⟩

omit htables in
theorem decode_lt {bound : ℕ} (hraw : ∀ raw ∈ alphabet.raw, raw < bound) (hbound : 0 < bound)
    {input : DeflateInput} {code : ℕ} (hcode : (inputSource.decode alphabet input).1 = some code) :
    code < bound := by
  have hat : ∀ hufSym index, alphabet.rawAt hufSym index < bound := by
    intro hufSym index
    rw [Alphabet.rawAt, getD_eq_getElem?_getD]
    cases hget : alphabet.raw[(hufSym.raw + index).toNat]? with
    | none => exact hbound
    | some raw => exact hraw raw (mem_of_getElem? hget)
  change (deflateDecode alphabet input).1 = some code at hcode
  simp only [deflateDecode] at hcode
  split_ifs at hcode
  obtain rfl := Option.some.inj hcode
  exact hat _ _

omit htables in
theorem deflateDecode_bits {input : DeflateInput} (hwf : input.Wf) (hbits : input.bits ≤ 22) :
    (inputSource.decode alphabet input).2.bits ≤ 22 := by
  have hacc := deflateAccumulate_spec hwf (.inl (by omega) : Fits 15 input)
  have hle := hacc.bits_le
  change (deflateDecode alphabet input).2.bits ≤ 22
  rw [deflateDecode]
  split_ifs
  · exact hle.trans (by omega)
  · change (input.deflateAccumulate 15).bits - _ ≤ 22
    omega

end

theorem deflateDiscardToByte_pending (hwf : input.Wf) :
    (inputSource.discardToByte input).pending = bitSource.discardToByte input.pending := by
  have hcount : input.bits &&& 7 = input.bits % 8 := Nat.and_two_pow_sub_one_eq_mod _ 3
  have hlength : input.pending.length % 8 = input.bits % 8 := by
    rw [length_pending, Nat.add_mul_mod_self_left]
  change (input.deflateConsume (input.bits &&& 7)).2.pending = input.pending.drop _
  rw [consume_pending hwf (by omega), hcount, hlength]

theorem deflateDiscardToByte_wf (hwf : input.Wf) : (inputSource.discardToByte input).Wf :=
  consume_wf hwf Nat.and_le_left

theorem deflateDiscardToByte_bits (input : DeflateInput) :
    (inputSource.discardToByte input).bits = input.bits - input.bits % 8 := by
  change input.bits - (input.bits &&& 7) = _
  rw [show input.bits &&& 7 = input.bits % 8 from Nat.and_two_pow_sub_one_eq_mod _ 3]

theorem accumulate_reads (hwf : input.Wf) (haligned : input.bits % 8 = 0) :
    ReadsAs (bitSource.accumulate 32 input.pending) (inputSource.accumulate 32 input) ∧
      (inputSource.accumulate 32 input).2.bits % 8 = 0 := by
  have hacc := deflateAccumulate_spec hwf (.inr ⟨haligned, le_rfl⟩ : Fits 32 input)
  have hlength := length_pending (input.deflateAccumulate 32)
  refine ⟨⟨?_, hacc.wf, fun hnone => ?_⟩, hacc.bits_mod.trans haligned⟩
  · change (if 32 ≤ input.pending.length then some () else none, input.pending) =
      (if (input.deflateAccumulate 32).bits < 32 then none else some (),
        (input.deflateAccumulate 32).pending)
    rw [← hacc.pending]
    split_ifs with hlong hless hless
    · rw [hacc.drained hless, length_nil] at hlength
      omega
    · rfl
    · rfl
    · omega
  · apply hacc.drained
    by_contra henough
    change (if (input.deflateAccumulate 32).bits < 32 then none else some ()) = none at hnone
    rw [if_neg henough] at hnone
    cases hnone

theorem literal_reads (hbits : input.bits = 0) (len : ℕ) :
    bitSource.literal len input.pending =
      ((inputSource.literal len input).1, (inputSource.literal len input).2.pending) := by
  change takeBytes len (bitsOf input.bits input.accumulator ++ bytesBits input.bytes) =
    (input.bytes.take len, bitsOf input.bits input.accumulator ++ bytesBits (input.bytes.drop len))
  rw [hbits, bitsOf, nil_append, nil_append, takeBytes_bytesBits]

theorem literal_wf (hwf : input.Wf) (len : ℕ) : (inputSource.literal len input).2.Wf :=
  ⟨hwf.bits_le, hwf.accumulator_lt, hwf.rotalumucca_eq⟩

end Ipxe.Analysis
