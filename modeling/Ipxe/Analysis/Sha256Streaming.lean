import Ipxe.Interface.SecureHash

/-!
# SHA-256 of a stream

A context holds the hash of the whole blocks so far and the bytes behind them.  What the
conversion leaves in the data of a context is not read: a block is digested once all its bytes
have been written.
-/

namespace Ipxe.Analysis

open Library Model Interface
open List hiding Vector

theorem dwords_be32ToCpus (bytes : Bytes) :
    dwords (be32ToCpus bytes) = bigEndianWords bytes ∧
      (be32ToCpus bytes).length = bytes.length ∧
      (bigEndianWords bytes).length = bytes.length / 4 := by
  fun_induction be32ToCpus bytes with
  | case1 b0 b1 b2 b3 bytes ih =>
    obtain ⟨hwords, hlength, hcount⟩ := ih
    refine ⟨by rw [dwords, bigEndianWords, hwords], by simp [hlength], ?_⟩
    rw [bigEndianWords, length_cons]
    simp
    omega
  | case2 bytes hshort =>
    match bytes with
    | [] | [_] | [_, _] | [_, _, _] => simp [dwords, bigEndianWords]
    | b0 :: b1 :: b2 :: b3 :: bytes => exact absurd rfl (hshort b0 b1 b2 b3 bytes)

theorem bigEndianWords_flatMap (words : List (BitVec 32)) :
    bigEndianWords (words.flatMap cpuToBe32) = words := by
  induction words with
  | nil => rfl
  | cons word words ih =>
    obtain ⟨b0, b1, b2, b3, hbytes⟩ : ∃ b0 b1 b2 b3, cpuToBe32 word = [b0, b1, b2, b3] :=
      ⟨_, _, _, _, rfl⟩
    have hword : BitVec.ofNat 32 (bigEndianValue (cpuToBe32 word)) = word := by
      rw [cpuToBe32, bigEndianValue_bigEndian, show 256 ^ 4 = 2 ^ 32 from rfl,
        Nat.mod_eq_of_lt word.isLt, BitVec.ofNat_toNat, BitVec.setWidth_eq]
    rw [hbytes] at hword
    rw [flatMap_cons, hbytes]
    simp [bigEndianWords, hword, ih]

theorem bigEndian_mod (bytes value : ℕ) :
    bigEndian bytes (value % 256 ^ bytes) = bigEndian bytes value := by
  induction bytes generalizing value with
  | zero => rfl
  | succ bytes ih =>
    rw [bigEndian, bigEndian, Nat.pow_succ', Nat.mod_mul_right_div_self, ih]
    have hlast : UInt8.ofNat (value % (256 * 256 ^ bytes)) = UInt8.ofNat value := by
      rw [← UInt8.toNat_inj, UInt8.toNat_ofNat', UInt8.toNat_ofNat',
        Nat.mod_mod_of_dvd value (Nat.dvd_mul_right _ _)]
    rw [hlast]

theorem ror32_eq {rotation : ℕ} (h : rotation < 32) (data : BitVec 32) :
    ror32 data rotation = data.rotateRight rotation := by
  rw [ror32, BitVec.rotateRight, Nat.mod_eq_of_lt h, BitVec.rotateRightAux]

theorem turn_eq (v : Sha256Variables) (k w : BitVec 32) : v.turn k w = hashRound v k w := by
  simp (disch := decide) only [Sha256Variables.turn, hashRound, ror32_eq, bigSigma0, bigSigma1,
    choice, majority]

theorem foldl_sha256Schedule {block : Bytes} (hblock : block.length = 64) (count : ℕ) :
    (range' 16 count).foldl sha256Schedule (bigEndianWords block) =
      (range (16 + count)).map (scheduleWord block) := by
  induction count with
  | zero =>
    have hwords := (dwords_be32ToCpus block).2.2
    refine ext_getElem (by simp [hwords, hblock]) fun t ht htlt => ?_
    rw [getElem_map, getElem_range, scheduleWord, if_pos (by simpa using htlt)]
    exact (congrArg (·.getD 0) (getElem?_eq_getElem ht)).symm
  | succ count ih =>
    have hget : ∀ t < 16 + count,
        ((range (16 + count)).map (scheduleWord block)).getD t 0 = scheduleWord block t := by
      intro t ht
      simp [ht]
    rw [range'_concat, foldl_append, ih, foldl_cons, ← add_assoc,
      range_succ, map_append, sha256Schedule]
    simp (disch := omega) only [hget, ror32_eq]
    rw [map_singleton, scheduleWord.eq_def block (16 + count), smallSigma0, smallSigma1]
    ac_rfl

theorem sha256K_eq : ∀ t < 64, sha256K.getD t 0 = rootFraction 3 t := by
  decide +kernel

variable {context : Sha256Context}

theorem sha256Digest_digest {hash : Sha256Variables}
    (hdigest : context.digest = hash.words.flatMap cpuToBe32) (hdata : context.data.length = 64) :
    (sha256Digest context).digest = (hashBlock hash context.data).words.flatMap cpuToBe32 := by
  have hloop : ∀ v, (range 64).foldl (fun v i => hashRound v (sha256K.getD i 0)
      (((range 64).map (scheduleWord context.data)).getD i 0)) v =
      (range 64).foldl
        (fun v t => hashRound v (rootFraction 3 t) (scheduleWord context.data t)) v := by
    intro v
    refine foldl_ext _ _ _ fun v t ht => ?_
    rw [sha256K_eq t (mem_range.1 ht)]
    simp [mem_range.1 ht]
  simp only [sha256Digest, (dwords_be32ToCpus _).1, hdigest, bigEndianWords_flatMap,
    foldl_sha256Schedule hdata, turn_eq, hloop]
  simp only [Sha256Variables.words, hashBlock, getD_cons_zero, getD_cons_succ,
    zipWith_cons_cons, zipWith_nil_left, BitVec.add_comm]

/-! ## Streams -/

/-- What a context holds behind `whole` blocks and a `part` of one. -/
structure Absorbed (arch : Platform) (whole part : Bytes) (context : Sha256Context) : Prop where
  blocks : 64 ∣ whole.length
  part_lt : part.length < 64
  len : context.len = (whole.length + part.length) % 2 ^ arch.sizeBits
  digestsize : context.digestsize = 32
  digest : context.digest = (hashWords whole).words.flatMap cpuToBe32
  length : context.data.length = 64
  data : context.data.take part.length = part

theorem hashWords_append {whole block : Bytes} (hwhole : 64 ∣ whole.length)
    (hblock : block.length = 64) :
    hashWords (whole ++ block) = hashBlock (hashWords whole) block := by
  have hne : block ≠ [] := ne_nil_of_length_pos (by omega)
  rw [hashWords, chunks_append (by decide) hwhole, chunks_of_length_le (by decide) hne hblock.le,
    foldl_append]
  rfl

theorem absorbed_sha256Init (arch : Platform) (memory : Vector UInt8 64) :
    Absorbed arch [] [] (sha256Init memory) where
  blocks := by simp
  part_lt := by decide
  len := by simp [sha256Init]
  digestsize := rfl
  digest := by
    rw [hashWords, chunks_nil, foldl_nil, show initialHash = ⟨0x6a09e667, 0xbb67ae85,
      0x3c6ef372, 0xa54ff53a, 0x510e527f, 0x9b05688c, 0x1f83d9ab, 0x5be0cd19⟩ by decide +kernel]
    rfl
  length := memory.length_toList
  data := rfl

theorem absorbed_sha256UpdateByte {arch : Platform} {whole part : Bytes}
    (h : Absorbed arch whole part context) (byte : UInt8) :
    ∃ whole' part', whole' ++ part' = whole ++ part ++ [byte] ∧
      Absorbed arch whole' part' (sha256UpdateByte arch context byte) := by
  obtain ⟨blocks, hblocks⟩ := h.blocks
  have hpart := h.part_lt
  have hoffset : context.len % 64 = part.length := by
    rw [h.len, mod_sizeBits_mod]
    omega
  have hset : context.data.set part.length byte =
      part ++ [byte] ++ context.data.drop (part.length + 1) := by
    rw [set_eq_take_append_cons_drop, if_pos (by rw [h.length]; exact hpart), h.data, append_assoc]
    rfl
  have hlength : (context.data.set part.length byte).length = 64 := by
    rw [length_set, h.length]
  have hlen : (context.len + 1) % 2 ^ arch.sizeBits =
      (whole.length + (part ++ [byte]).length) % 2 ^ arch.sizeBits := by
    rw [h.len, Nat.mod_add_mod, length_append, add_assoc]
    rfl
  simp only [sha256UpdateByte, hoffset, hlen, mod_sizeBits_mod]
  by_cases hfull : part.length = 63
  · have hblock : context.data.set part.length byte = part ++ [byte] := by
      rw [hset, drop_of_length_le (by rw [h.length]; omega), append_nil]
    rw [if_pos (by simp; omega)]
    refine ⟨whole ++ (part ++ [byte]), [], by simp, ?_⟩
    rw [hblock] at hlength ⊢
    exact {
      blocks := by rw [length_append, hlength]; omega
      part_lt := by decide
      len := by rw [@List.length_append _ whole]; rfl
      digestsize := h.digestsize
      digest := by
        rw [hashWords_append h.blocks hlength]
        exact sha256Digest_digest h.digest hlength
      length := (dwords_be32ToCpus _).2.1.trans hlength
      data := rfl }
  · rw [if_neg (by simp; omega)]
    exact ⟨whole, part ++ [byte], by simp, {
      blocks := h.blocks
      part_lt := by simp; omega
      len := rfl
      digestsize := h.digestsize
      digest := h.digest
      length := hlength
      data := by rw [hset]; exact take_left }⟩

theorem absorbed_sha256Update {arch : Platform} {whole part : Bytes}
    (h : Absorbed arch whole part context) (bytes : Bytes) :
    ∃ whole' part', whole' ++ part' = whole ++ part ++ bytes ∧
      Absorbed arch whole' part' (sha256Update arch context bytes) := by
  induction bytes generalizing whole part context with
  | nil => exact ⟨whole, part, by simp, h⟩
  | cons byte bytes ih =>
    obtain ⟨whole', part', hsame, hstep⟩ := absorbed_sha256UpdateByte h byte
    obtain ⟨whole'', part'', hsame', hrun⟩ := ih hstep
    refine ⟨whole'', part'', ?_, hrun⟩
    rw [hsame', hsame, append_assoc, singleton_append]

theorem sha256Pad_eq (arch : Platform) (context : Sha256Context) :
    sha256Pad arch context =
      sha256Update arch context (replicate ((120 - context.len % 64) % 64) 0x00) := by
  fun_induction sha256Pad arch context with
  | case1 context hmore ih =>
    have hlen : (sha256Update arch context [0x00]).len % 64 = (context.len + 1) % 64 := by
      rw [sha256Update, foldl_cons, foldl_nil, len_sha256UpdateByte, mod_sizeBits_mod]
    rw [ih, hlen, show (120 - context.len % 64) % 64 = (120 - (context.len + 1) % 64) % 64 + 1 by
      omega]
    rfl
  | case2 context hdone =>
    rw [show (120 - context.len % 64) % 64 = 0 by omega]
    rfl

/-- **Cuts do not matter, and the digest is that of the standard.** -/
theorem sha256_streaming (arch : Platform) (memory : Vector UInt8 64)
    (pieces : List Bytes) (hlength : pieces.flatten.length < 2 ^ arch.sizeBits) :
    sha256Final arch (pieces.foldl (sha256Update arch) (sha256Init memory)) =
      secureHash256 pieces.flatten := by
  have hpieces : pieces.foldl (sha256Update arch) (sha256Init memory) =
      sha256Update arch (sha256Init memory) pieces.flatten := by
    rw [sha256Update, foldl_flatten]
    rfl
  obtain ⟨message, hmessage⟩ : ∃ message, message = pieces.flatten := ⟨_, rfl⟩
  rw [hpieces]
  rw [← hmessage] at hlength ⊢
  have hlen : ∀ bytes, (sha256Update arch (sha256Init memory) bytes).len =
      bytes.length % 2 ^ arch.sizeBits := by
    intro bytes
    obtain ⟨whole, part, hsame, habsorbed⟩ :=
      absorbed_sha256Update (absorbed_sha256Init arch memory) bytes
    rw [habsorbed.len, ← length_append, hsame]
    rfl
  have hmod : message.length * 8 % 2 ^ 64 = 8 * message.length % 256 ^ 8 := by
    rw [mul_comm]
    rfl
  have hpad : sha256Update arch (sha256Pad arch (sha256Update arch
      (sha256Update arch (sha256Init memory) message) [0x80]))
      (bigEndian 8 (message.length * 8 % 2 ^ 64)) =
      sha256Update arch (sha256Init memory) (paddedMessage message) := by
    have hone : sha256Update arch (sha256Update arch (sha256Init memory) message) [0x80] =
        sha256Update arch (sha256Init memory) (message ++ [0x80]) := foldl_append.symm
    rw [hone, sha256Pad_eq, hlen, mod_sizeBits_mod, hmod, bigEndian_mod, paddedMessage,
      show (120 - (message ++ [(0x80 : UInt8)]).length % 64) % 64 =
        (119 - message.length % 64) % 64 by rw [length_append, length_singleton]; omega]
    simp [sha256Update]
  obtain ⟨whole, part, hsame, habsorbed⟩ :=
    absorbed_sha256Update (absorbed_sha256Init arch memory) (paddedMessage message)
  have hpart : part = [] := by
    obtain ⟨blocks, hblocks⟩ := habsorbed.blocks
    have hlt := habsorbed.part_lt
    have htotal := congrArg List.length hsame
    simp [paddedMessage] at htotal
    exact length_eq_zero_iff.mp (by omega)
  rw [hpart, append_nil, nil_append] at hsame
  rw [sha256Final, hlen, Nat.mod_eq_of_lt hlength]
  simp only [hpad]
  rw [habsorbed.digestsize, habsorbed.digest, hsame]
  exact take_of_length_le (by simp [Sha256Variables.words, cpuToBe32])

theorem sha256_streaming_two_pieces :
    [[0x61], [], [0x62, 0x63]].flatten.length < 2 ^ Platform.ia32.sizeBits ∧
      sha256Final .ia32 ([[0x61], [], [0x62, 0x63]].foldl (sha256Update .ia32)
        (sha256Init (Vector.replicate 64 0xaa))) = secureHash256 [0x61, 0x62, 0x63] :=
  ⟨by decide, sha256_streaming .ia32 _ [[0x61], [], [0x62, 0x63]] (by decide)⟩

end Ipxe.Analysis
