import Ipxe.Analysis.DeflateSteps
import Ipxe.Interface.DeflateStream

/-!
# Decompressing tokens

Inside a block with Huffman codes: from the label for literal/length codes, the bits of a
token lead back to that label with the token expanded behind the output, and the end of block
code leads out of the block.
-/

namespace Ipxe.Analysis

open Library Model Interface List
open DeflateStream (shown)

/-! ## The output buffer -/

theorem length_shown (buffer output : Bytes) : (shown buffer output).length = buffer.length := by
  rw [shown, length_take, length_append, length_drop]
  omega

theorem getElem?_shown (buffer output : Bytes) (i : ℕ) :
    (shown buffer output)[i]? =
      if i < buffer.length then (if i < output.length then output[i]? else buffer[i]?) else none := by
  rw [shown]
  split_ifs with hbuffer houtput
  · rw [getElem?_take_of_lt hbuffer, getElem?_append_left houtput]
  · rw [getElem?_take_of_lt hbuffer, getElem?_append_right (by omega),
      getElem?_drop, Nat.add_sub_of_le (not_lt.1 houtput)]
  · exact getElem?_take_eq_none (not_lt.1 hbuffer)

theorem shown_nil (buffer : Bytes) : shown buffer [] = buffer := by
  rw [shown, length_nil, drop_zero, nil_append, take_length]

theorem shown_append_of_le {buffer output : Bytes} (h : buffer.length ≤ output.length)
    (more : Bytes) : shown buffer (output ++ more) = shown buffer output := by
  apply ext_getElem?
  intro i
  rw [getElem?_shown, getElem?_shown]
  split_ifs with hbuffer hlonger houtput
  · rw [getElem?_append_left houtput]
  · omega
  · rw [length_append] at hlonger
    omega
  · rfl
  · rfl

/-- The output so far, as the decompressor has it. -/
def Shows (buffer output : Bytes) (out : DeflateChunk) : Prop :=
  out = { data := shown buffer output, offset := output.length }

theorem Shows.copy_readFrom {buffer output : Bytes} {out : DeflateChunk}
    (h : Shows buffer output out) (bytes : Bytes) :
    Shows buffer (output ++ bytes) (deflateCopy out (readFrom bytes) 0 bytes.length) := by
  have hdata : (deflateCopy out (readFrom bytes) 0 bytes.length).data =
      shown buffer (output ++ bytes) := by
    apply ext_getElem?
    intro i
    rw [getElem?_deflateCopy_readFrom, getElem?_shown, h, length_shown, getElem?_shown,
      length_append]
    dsimp only
    by_cases hbuffer : i < buffer.length
    · by_cases houtput : i < output.length
      · rw [if_neg (by omega), if_pos hbuffer, if_pos houtput, if_pos hbuffer, if_pos (by omega),
          getElem?_append_left houtput]
      · by_cases hbytes : i < output.length + bytes.length
        · rw [if_pos ⟨not_lt.1 houtput, hbytes, hbuffer⟩, if_pos hbuffer, if_pos hbytes,
            getElem?_append_right (not_lt.1 houtput),
            getElem?_eq_getElem (show i - output.length < bytes.length by omega),
            getD_eq_getElem _ _ (show i - output.length < bytes.length by omega)]
        · rw [if_neg (by omega), if_pos hbuffer, if_neg houtput, if_pos hbuffer, if_neg hbytes]
    · rw [if_neg (by omega), if_neg hbuffer, if_neg hbuffer]
  have hoffset : (deflateCopy out (readFrom bytes) 0 bytes.length).offset =
      (output ++ bytes).length := by
    rw [length_append, h]
    rfl
  exact congrArg₂ DeflateChunk.mk hdata hoffset

theorem copyBack_add (distance n m : ℕ) (output : Bytes) :
    copyBack distance (n + m) output = copyBack distance m (copyBack distance n output) := by
  induction n generalizing output with
  | zero => rw [zero_add]; rfl
  | succ n ih => rw [Nat.succ_add, copyBack, ih, copyBack]

theorem exists_copyBack_eq (distance n : ℕ) (output : Bytes) :
    ∃ more, copyBack distance n output = output ++ more ∧ more.length = n := by
  induction n generalizing output with
  | zero => exact ⟨[], (append_nil _).symm, rfl⟩
  | succ n ih =>
    obtain ⟨more, hmore, hlength⟩ := ih (output ++ [output.getD (output.length - distance) 0])
    exact ⟨_ :: more, by rw [copyBack, hmore, append_assoc]; rfl, by simp [hlength]⟩

theorem copyBytes_readBack {buffer : Bytes} {distance : ℕ} (hpos : 1 ≤ distance) (n : ℕ) :
    ∀ {output : Bytes}, distance ≤ output.length → output.length + n ≤ buffer.length →
      copyBytes readBack n output.length (output.length - distance) (shown buffer output) =
        shown buffer (copyBack distance n output) := by
  induction n with
  | zero => exact fun _ _ => rfl
  | succ n ih =>
    intro output hdistance hroom
    have hread : readBack (shown buffer output) (output.length - distance) =
        output.getD (output.length - distance) 0 := by
      rw [readBack, getD_eq_getElem?_getD, getElem?_shown, if_pos (by omega),
        if_pos (by omega), getD_eq_getElem?_getD]
    have hset : (shown buffer output).set output.length (output.getD (output.length - distance) 0) =
        shown buffer (output ++ [output.getD (output.length - distance) 0]) := by
      generalize output.getD (output.length - distance) 0 = byte
      apply ext_getElem?
      intro i
      rw [getElem?_shown, length_append, length_singleton]
      by_cases hi : i = output.length
      · subst hi
        rw [getElem?_set_self (by rw [length_shown]; omega), if_pos (by omega),
          if_pos (by omega), getElem?_concat_length]
      · rw [getElem?_set_ne (Ne.symm hi), getElem?_shown]
        by_cases hless : i < output.length
        · rw [if_pos hless, if_pos (show i < output.length + 1 by omega),
            getElem?_append_left hless]
        · rw [if_neg hless, if_neg (show ¬ i < output.length + 1 by omega)]
    have hnext := ih (show distance ≤ (output ++ [output.getD (output.length - distance) 0]).length by
      rw [length_append]; omega) (by rw [length_append, length_singleton]; omega)
    rw [length_append, length_singleton,
      show output.length + 1 - distance = output.length - distance + 1 by omega] at hnext
    rw [copyBytes, hread, hset, hnext, copyBack]

/-- **A copy repeats the output**, also where it overlaps and where the buffer ends. -/
theorem Shows.copy_readBack {buffer output : Bytes} {out : DeflateChunk}
    (h : Shows buffer output out) {distance : ℕ} (hpos : 1 ≤ distance)
    (hdistance : distance ≤ output.length) (len : ℕ) :
    Shows buffer (copyBack distance len output)
      (deflateCopy out readBack (out.offset - distance) len) := by
  have hdata : (deflateCopy out readBack (out.offset - distance) len).data =
      shown buffer (copyBack distance len output) := by
    rw [deflateCopy, h]
    dsimp only
    rw [length_shown]
    split_ifs with hroom
    · rw [copyBytes_readBack hpos _ hdistance (by omega)]
      rcases le_total len (buffer.length - output.length) with hall | hpart
      · rw [min_eq_right hall]
      · rw [min_eq_left hpart]
        obtain ⟨rest, rfl⟩ := Nat.exists_eq_add_of_le hpart
        obtain ⟨front, hfront, hlength⟩ :=
          exists_copyBack_eq distance (buffer.length - output.length) output
        obtain ⟨more, hmore, -⟩ := exists_copyBack_eq distance rest
          (copyBack distance (buffer.length - output.length) output)
        rw [copyBack_add, hmore, shown_append_of_le]
        rw [hfront, length_append]
        omega
    · obtain ⟨more, hmore, -⟩ := exists_copyBack_eq distance len output
      rw [hmore, shown_append_of_le (not_lt.1 hroom)]
  have hoffset : (deflateCopy out readBack (out.offset - distance) len).offset =
      (copyBack distance len output).length := by
    obtain ⟨more, hmore, hlength⟩ := exists_copyBack_eq distance len output
    rw [hmore, length_append, hlength, h]
    rfl
  exact congrArg₂ DeflateChunk.mk hdata hoffset

theorem extract_bitsOf {target value : ℕ} (h : value < 2 ^ target) (rest : List Bool) :
    bitSource.extract target (bitsOf target value ++ rest) = (some value, rest) := by
  have hlength := length_bitsOf target value
  have hle : target ≤ (bitsOf target value ++ rest).length := by
    rw [length_append]
    omega
  simp only [bitSource, if_pos hle, take_left' hlength, drop_left' hlength, lsbValue_bitsOf_of_lt h]

/-- A label that has read a value goes on to where the value leads. -/
theorem reaches_read {c c' : Inflater} {value : ℕ} {bits rest : List Bool}
    (hlabel : c.label ≠ .literalData) (hread : bitSource.read c.reads bits = (some value, rest))
    (hnext : c.control value = .next c' ()) : Reaches bitStep (c, bits) (c', rest) := by
  refine Reaches.next ?_
  rw [bitStep, deflateStep_eq_await _ hlabel, hread, Outcome.await_some, hnext]
  rfl

/-- The words of a code are read with an alphabet. -/
def Decodes (alphabet : Alphabet) (lens : List ℕ) : Prop :=
  ∀ symbol, lens.getD symbol 0 ≠ 0 → ∀ rest,
    bitSource.decode alphabet (codeBits lens symbol ++ rest) = (some symbol, rest)

theorem decodes_deflateAlphabet {lengths : List ℕ} {alphabet : Alphabet} {count offset : ℕ}
    (hcomplete : Complete (codeLens lengths count offset) 15) (hroom : count ≤ alphabet.raw.length) :
    Decodes (deflateAlphabet lengths alphabet count offset).1 (codeLens lengths count offset) := by
  intro symbol hused rest
  have htables := deflateAlphabet_tables lengths alphabet count offset hcomplete
  have hraw := rawAt_codeOf lengths alphabet count offset hcomplete hroom rfl hused
  have hle : (codeLens lengths count offset).getD symbol 0 ≤ 15 := by
    have hsymbol := lt_length_of_getD_ne_zero _ hused
    rw [getD_eq_getElem _ _ hsymbol]
    exact le_of_mem_codeLens (getElem_mem hsymbol)
  have hlen := codeLength_codeBits htables.complete.le hused hle rest
  have hvalue := msbValue_bitsOf_reverse (codeOf_lt_two_pow htables.complete.le hused hle)
  have hlength : (codeBits (codeLens lengths count offset) symbol).length =
      (codeLens lengths count offset).getD symbol 0 := by simp [codeBits]
  simp only [bitSource_decode htables, hlen, take_left' hlength, drop_left' hlength]
  rw [codeBits, hvalue, hraw]

/-- **Huffman lookup.**  Exactly the lengths of complete codes are accepted.  Then a symbol is read
exactly if its word is at the front of the input, and nothing but its word is consumed.
[crypto/deflate.c:213-297,396-436] -/
theorem huffman_lookup (lengths : List ℕ) (alphabet : Alphabet) (count offset : ℕ)
    (hroom : count ≤ alphabet.raw.length) :
    let built := deflateAlphabet lengths alphabet count offset
    let lens := codeLens lengths count offset
    (built.2 = .ok () ↔ Complete lens 15) ∧
      (built.2 = .ok () → ∀ input : DeflateInput, input.Wf →
        let decoded := input.deflateDecode built.1
        (∀ symbol, decoded.1 = some symbol ↔
          lens.getD symbol 0 ≠ 0 ∧ codeBits lens symbol <+: input.pending) ∧
        input.pending = decoded.1.elim [] (codeBits lens) ++ decoded.2.pending) := by
  intro built lens
  have hrc : built.2 = .ok () ↔ Complete lens 15 := by
    rw [show built.2 = _ from deflateAlphabet_rc lengths alphabet count offset]
    split_ifs with hcomplete <;> simp [lens, hcomplete]
  refine ⟨hrc, fun hok input hwf => ?_⟩
  have hcomplete := hrc.1 hok
  have htables := deflateAlphabet_tables lengths alphabet count offset hcomplete
  have hdecodes : Decodes built.1 lens := decodes_deflateAlphabet hcomplete hroom
  have hread := (deflateDecode_reads htables hwf).eq
  change bitSource.decode built.1 input.pending = (_, _) at hread
  intro decoded
  by_cases hword : ∃ symbol, lens.getD symbol 0 ≠ 0 ∧ codeBits lens symbol <+: input.pending
  · obtain ⟨symbol, hused, rest, hpending⟩ := hword
    rw [← hpending, hdecodes symbol hused rest] at hread
    obtain ⟨hsome, hrest⟩ := Prod.mk.inj hread
    have hdecoded : decoded.1 = some symbol := hsome.symm
    refine ⟨fun other => ?_, ?_⟩
    · rw [hdecoded]
      constructor
      · rintro ⟨⟩
        exact ⟨hused, rest, hpending⟩
      · rintro ⟨hother, behind, hfront⟩
        rw [← hpending] at hfront
        have hsame := hdecodes other hother behind
        rw [hfront, hdecodes symbol hused rest] at hsame
        exact congrArg Prod.fst hsame
    · rw [hdecoded, ← hpending, hrest]
      rfl
  · have hnone : bitSource.decode built.1 input.pending = (none, input.pending) := by
      rw [bitSource_decode htables]
      cases hcode : codeLength (lengthCount (codeLens lengths count offset)) 15 input.pending with
      | none => rfl
      | some len => exact absurd (exists_codeBits hcode) hword
    rw [hnone] at hread
    obtain ⟨hsome, hrest⟩ := Prod.mk.inj hread
    have hdecoded : decoded.1 = none := hsome.symm
    rw [hdecoded]
    exact ⟨fun symbol => ⟨nofun, fun h => absurd ⟨symbol, h⟩ hword⟩, hrest⟩

/-- A code of two words, `0` and `1`. -/
theorem huffman_lookup_two :
    (deflateAlphabet [0x11] (.zeroed 2) 2 0).2 = .ok () ∧ ∀ input : DeflateInput, input.Wf →
      ((input.deflateDecode (deflateAlphabet [0x11] (.zeroed 2) 2 0).1).1 = some 1 ↔
        [true] <+: input.pending) := by
  obtain ⟨hrc, hread⟩ := huffman_lookup [0x11] (.zeroed 2) 2 0 (by decide)
  have hok := hrc.2 (by decide)
  exact ⟨hok, fun input hwf => ((hread hok input hwf).1 1).trans (and_iff_right (by decide))⟩

/-! ## Tokens -/

/-- What blocks leave alone, and the output so far. -/
structure Steady (buffer output : Bytes) (c : Inflater) : Prop where
  format : c.format = .raw
  litlen_raw : c.litlen.raw.length = 288
  distance_raw : c.distanceCodelen.raw.length = 32
  shows : Shows buffer output c.out

/-- Inside a block, before a literal/length code. -/
structure InBlock (header : ℕ) (codes : CodePair) (buffer output : Bytes) (c : Inflater) :
    Prop where
  label : c.label = .lzhufLitlen
  header : c.header = header
  steady : Steady buffer output c
  litlen : Decodes c.litlen codes.litlen
  dist : Decodes c.distanceCodelen codes.dist

/-- A block is left, with its output. -/
structure BlockEnd (header : ℕ) (buffer output : Bytes) (c : Inflater) : Prop where
  label : c.label = .blockDone
  header : c.header = header
  steady : Steady buffer output c

theorem length_tables : ∀ code < 28,
    litlenExtraBits code = (lengthCodes.getD code (0, 0)).1 ∧
      deflateLitlenBase.getD code 0 = (lengthCodes.getD code (0, 0)).2 := by
  decide

theorem distance_tables : ∀ code < 30,
    distanceExtraBits code = (distanceCodes.getD code (0, 0)).1 ∧
      deflateDistanceBase.getD code 0 = (distanceCodes.getD code (0, 0)).2 ∧
      1 ≤ (distanceCodes.getD code (0, 0)).2 := by
  decide

section

variable {header : ℕ} {codes : CodePair} {buffer output : Bytes} {c : Inflater}

section

variable (h : InBlock header codes buffer output c)

include h

theorem reaches_literal {byte : UInt8} (hused : codes.litlen.getD byte.toNat 0 ≠ 0)
    (rest : List Bool) :
    ∃ c', Reaches bitStep (c, codeBits codes.litlen byte.toNat ++ rest) (c', rest) ∧
      InBlock header codes buffer (output ++ [byte]) c' := by
  obtain ⟨regs, label, out⟩ := c
  obtain rfl : label = .lzhufLitlen := h.label
  refine ⟨_, reaches_read nofun (h.litlen _ hused rest) (if_pos byte.toNat_lt), ?_⟩
  rw [UInt8.ofNat_toNat]
  exact ⟨rfl, h.header, { h.steady with shows := h.steady.shows.copy_readFrom [byte] }, h.litlen,
    h.dist⟩

theorem reaches_end (hused : codes.litlen.getD 256 0 ≠ 0) (rest : List Bool) :
    Reaches bitStep (c, codeBits codes.litlen 256 ++ rest) ({ c with label := .blockDone }, rest) := by
  obtain ⟨regs, label, out⟩ := c
  obtain rfl : label = .lzhufLitlen := h.label
  exact reaches_read nofun (h.litlen _ hused rest) rfl

theorem reaches_length {code extra : ℕ} (hcode : code < 29)
    (hextra : extra < 2 ^ (lengthCodes.getD code (0, 0)).1)
    (hused : codes.litlen.getD (257 + code) 0 ≠ 0) (rest : List Bool) :
    Reaches bitStep
      (c, codeBits codes.litlen (257 + code) ++
        (bitsOf (lengthCodes.getD code (0, 0)).1 extra ++ rest))
      ({ c with
          label := .lzhufDistance
          extraBits := (lengthCodes.getD code (0, 0)).1
          dupLen := Token.length code extra }, rest) := by
  obtain ⟨regs, label, out⟩ := c
  obtain rfl : label = .lzhufLitlen := h.label
  have hbase : (Inflater.mk regs .lzhufLitlen out).control (257 + code) = .next
      { regs with
        label := .lzhufLitlenExtra
        extraBits := (lengthCodes.getD code (0, 0)).1
        dupLen := (lengthCodes.getD code (0, 0)).2
        out := out } () := by
    have hend : deflateLitlenEnd = 256 := rfl
    dsimp only [Inflater.control, deflateStep, Inflater.lzhufLitlen, valueSource, Outcome.await]
    rw [if_neg (show ¬ 257 + code < deflateLitlenEnd by omega),
      if_neg (show ¬ 257 + code = deflateLitlenEnd by omega),
      show 257 + code - deflateLitlenEnd - 1 = code by omega]
    rcases lt_or_ge code 28 with hsmall | hlast
    · obtain ⟨hbits, hlen⟩ := length_tables code hsmall
      rw [if_pos hsmall, hbits, hlen]
      rfl
    · obtain rfl : code = 28 := by omega
      rfl
  exact (reaches_read (c := ⟨regs, .lzhufLitlen, out⟩) nofun (h.litlen _ hused _) hbase).trans
    (reaches_read nofun (extract_bitsOf hextra rest) rfl)

end

theorem reaches_distance {len : ℕ} (hlabel : c.label = .lzhufDistance) (hlen : c.dupLen = len)
    (hshows : Shows buffer output c.out) (hdecodes : Decodes c.distanceCodelen codes.dist)
    {code extra : ℕ} (hcode : code < 30) (hextra : extra < 2 ^ (distanceCodes.getD code (0, 0)).1)
    (hused : codes.dist.getD code 0 ≠ 0) (hreach : Token.distance code extra ≤ output.length)
    (rest : List Bool) :
    ∃ out, Shows buffer (copyBack (Token.distance code extra) len output) out ∧
      Reaches bitStep
        (c, codeBits codes.dist code ++ (bitsOf (distanceCodes.getD code (0, 0)).1 extra ++ rest))
        ({ c with
            label := .lzhufLitlen
            extraBits := (distanceCodes.getD code (0, 0)).1
            dupDistance := (distanceCodes.getD code (0, 0)).2
            out := out }, rest) := by
  obtain ⟨hbits, hbase, hpos⟩ := distance_tables code hcode
  have hdistance : 1 ≤ Token.distance code extra := by
    rw [Token.distance]
    omega
  obtain ⟨regs, label, out⟩ := c
  obtain rfl : label = .lzhufDistance := hlabel
  refine ⟨_, hshows.copy_readBack hdistance hreach len, ?_⟩
  have hinside : ¬ out.offset < (distanceCodes.getD code (0, 0)).2 + extra := by
    rw [show out = _ from hshows]
    exact not_lt.2 hreach
  have hfirst := reaches_read (c := ⟨regs, .lzhufDistance, out⟩) nofun
    (hdecodes _ hused (bitsOf (distanceCodes.getD code (0, 0)).1 extra ++ rest)) rfl
  rw [hbits, hbase] at hfirst
  refine hfirst.trans (reaches_read nofun (extract_bitsOf hextra rest) ?_)
  dsimp only [Inflater.control, deflateStep, Inflater.lzhufDistanceExtra, valueSource, Outcome.await]
  rw [if_neg hinside, show regs.dupLen = len from hlen]
  rfl

theorem reaches_token (h : InBlock header codes buffer output c) {token : Token}
    (hvalid : token.Valid codes output) (rest : List Bool) :
    ∃ c', Reaches bitStep (c, token.bits codes ++ rest) (c', rest) ∧
      InBlock header codes buffer (token.expand output) c' := by
  cases token with
  | literal byte => exact reaches_literal h hvalid rest
  | copy lengthCode lengthExtra distanceCode distanceExtra =>
    obtain ⟨hlcode, hlextra, hlused, hdcode, hdextra, hdused, hreach⟩ := hvalid
    have hlength := reaches_length h hlcode hlextra hlused
      (codeBits codes.dist distanceCode ++
        (bitsOf (distanceCodes.getD distanceCode (0, 0)).1 distanceExtra ++ rest))
    obtain ⟨out, hshows, hdistance⟩ := @reaches_distance codes buffer output
      { c with
        label := .lzhufDistance
        extraBits := (lengthCodes.getD lengthCode (0, 0)).1
        dupLen := Token.length lengthCode lengthExtra }
      _ rfl rfl h.steady.shows h.dist _ _ hdcode hdextra hdused hreach rest
    have hboth := hlength.trans hdistance
    simp only [Token.bits, append_assoc]
    exact ⟨_, hboth, rfl, h.header, { h.steady with shows := hshows }, h.litlen, h.dist⟩

/-- **The tokens of a block are expanded**, and the block is left. -/
theorem reaches_tokens (tokens : List Token) :
    ∀ {output : Bytes} {c : Inflater}, InBlock header codes buffer output c →
      TokensValid codes output tokens → ∀ rest,
      ∃ c', Reaches bitStep (c, tokensBits codes tokens ++ rest) (c', rest) ∧
        BlockEnd header buffer (tokens.foldl Token.expand output) c' := by
  induction tokens with
  | nil =>
    intro output c h hvalid rest
    exact ⟨_, reaches_end h hvalid rest, rfl, h.header, { h.steady with }⟩
  | cons token tokens ih =>
    intro output c h hvalid rest
    obtain ⟨c₁, hfirst, h₁⟩ := reaches_token h hvalid.1 (tokensBits codes tokens ++ rest)
    obtain ⟨c₂, hothers, hend⟩ := ih h₁ hvalid.2 rest
    refine ⟨c₂, ?_, hend⟩
    rw [tokensBits, flatMap_cons, append_assoc, append_assoc]
    rw [tokensBits, append_assoc] at hfirst hothers
    exact hfirst.trans hothers

end

end Ipxe.Analysis
