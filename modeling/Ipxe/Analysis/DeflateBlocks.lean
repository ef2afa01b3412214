import Ipxe.Analysis.DeflateTokens

/-!
# Decompressing blocks

From a block header, the bits of a valid block lead to the end of the block with its bytes
behind the output, unless it describes several distances that are not a complete code.
-/

namespace Ipxe.Analysis

open Library Model Interface List

/-! ## Storing code lengths -/

theorem nibble_or {byte bits : ℕ} (hbits : bits < 16) {k m : ℕ} (hk : k < 2) :
    ((byte ||| bits <<< (4 * m)) % 256) >>> (4 * k) &&& 0x0f =
      if k = m then (byte >>> (4 * k) &&& 0x0f) ||| bits else byte >>> (4 * k) &&& 0x0f := by
  have hhigh : ∀ t, 4 ≤ t → bits.testBit t = false := fun t ht =>
    Nat.testBit_lt_two_pow (hbits.trans_le (Nat.pow_le_pow_right (show 0 < 2 by norm_num) ht))
  apply Nat.eq_of_testBit_eq
  intro t
  rw [apply_ite (Nat.testBit · t)]
  simp only [show (256 : ℕ) = 2 ^ 8 from rfl, show (0x0f : ℕ) = 2 ^ 4 - 1 from rfl,
    Nat.testBit_and, Nat.testBit_or, Nat.testBit_shiftRight, Nat.testBit_mod_two_pow,
    Nat.testBit_two_pow_sub_one, Nat.testBit_shiftLeft]
  rcases lt_or_ge t 4 with ht | ht
  · have hbyte : 4 * k + t < 8 := by omega
    split_ifs with hsame
    · simp [hsame ▸ hbyte, hsame, ht]
    · -- the digit is below the other one, or it is above where the other one ends
      rcases Nat.lt_or_gt_of_ne hsame with hbelow | habove
      · simp [hbyte, show ¬ 4 * m ≤ 4 * k + t by omega]
      · simp [hbyte, hhigh (4 * k + t - 4 * m) (by omega)]
  · simp [hhigh t ht, not_lt.2 ht]

theorem deflateLength_setLength {lengths : List ℕ} {i j bits : ℕ} (hi : i / 2 < lengths.length)
    (hbits : bits < 16) :
    deflateLength (deflateSetLength lengths i bits) j =
      if j = i then deflateLength lengths i ||| bits else deflateLength lengths j := by
  have hmodify : (deflateSetLength lengths i bits).getD (j / 2) 0 =
      if i / 2 = j / 2 then (lengths.getD (j / 2) 0 ||| bits <<< (4 * (i % 2))) % 256
      else lengths.getD (j / 2) 0 := by
    rw [deflateSetLength, getD_eq_getElem?_getD, getElem?_modify]
    split_ifs with hbyte
    · rw [getD_eq_getElem _ _ (by omega), getElem?_eq_getElem (by omega)]
      rfl
    · rw [getD_eq_getElem?_getD, Option.map_eq_map, Option.map_id']
  rw [deflateLength, hmodify]
  by_cases hbyte : i / 2 = j / 2
  · rw [if_pos hbyte, nibble_or hbits (Nat.mod_lt _ (by norm_num))]
    by_cases hsame : j = i
    · rw [if_pos (by rw [hsame]), if_pos hsame, hsame]
      rfl
    · rw [if_neg (by omega), if_neg hsame]
      rfl
  · rw [if_neg hbyte, if_neg (by rintro rfl; exact hbyte rfl)]
    rfl

theorem length_deflateSetLength (lengths : List ℕ) (i bits : ℕ) :
    (deflateSetLength lengths i bits).length = lengths.length := by
  rw [deflateSetLength, length_modify]

/-- `lengths` holds these code lengths, and zeroes behind them. -/
structure Holds (lengths lens : List ℕ) : Prop where
  size : lengths.length = deflateLengthsSize
  get : ∀ i, deflateLength lengths i = lens.getD i 0

theorem Holds.zeroed : Holds (replicate deflateLengthsSize 0) [] := by
  refine ⟨length_replicate, fun i => ?_⟩
  have hzero : (replicate deflateLengthsSize 0).getD (i / 2) 0 = 0 := by
    rw [getD_eq_getElem?_getD, getElem?_replicate]
    split_ifs <;> rfl
  rw [deflateLength, hzero, Nat.zero_shiftRight]
  rfl

section

variable {lengths lens : List ℕ}

theorem Holds.getLastD_le (h : Holds lengths lens) : lens.getLastD 0 ≤ 15 := by
  have hlast : lens.getLastD 0 = lens.getD (lens.length - 1) 0 := by
    rw [getLastD_eq_getLast?, getLast?_eq_getElem?, getD_eq_getElem?_getD]
  rw [hlast, ← h.get]
  exact deflateLength_le _ _

theorem Holds.set (h : Holds lengths lens) {i len : ℕ} (hi : i < 320) (hlen : len < 16)
    (hzero : lens.getD i 0 = 0) {lens' : List ℕ}
    (hlens : ∀ j, lens'.getD j 0 = if j = i then len else lens.getD j 0) :
    Holds (deflateSetLength lengths i len) lens' := by
  have hbyte : i / 2 < lengths.length := by
    rw [h.size]
    change i / 2 < 160
    omega
  refine ⟨(length_deflateSetLength _ _ _).trans h.size, fun j => ?_⟩
  rw [deflateLength_setLength hbyte hlen, h.get, h.get, hzero, Nat.zero_or, hlens]

theorem getD_concat (lens : List ℕ) (len j : ℕ) :
    (lens ++ [len]).getD j 0 = if j = lens.length then len else lens.getD j 0 := by
  rcases Nat.lt_trichotomy j lens.length with hj | rfl | hj
  · rw [getD_append _ _ _ _ hj, if_neg hj.ne]
  · simp
  · rw [if_neg hj.ne', getD_eq_default _ _ hj.le, getD_eq_default]
    rw [length_append]
    exact hj

theorem Holds.concat (h : Holds lengths lens) (hroom : lens.length < 320) {len : ℕ}
    (hlen : len < 16) : Holds (deflateSetLength lengths lens.length len) (lens ++ [len]) :=
  h.set hroom hlen (getD_eq_default _ _ le_rfl) (getD_concat lens len)

theorem Holds.storeLengths {len target : ℕ} (hlen : len < 16) (htarget : target ≤ 320) :
    ∀ {dup : ℕ} {lengths lens : List ℕ}, Holds lengths lens → lens.length + dup ≤ target →
      ∃ stored, Inflater.storeLengths len target dup lens.length lengths =
          ((lens ++ replicate dup len).length, stored) ∧
        Holds stored (lens ++ replicate dup len) := by
  intro dup
  induction dup with
  | zero =>
    intro lengths lens h _
    refine ⟨lengths, ?_, ?_⟩
    · simp [Inflater.storeLengths]
    · simpa using h
  | succ dup ih =>
    intro lengths lens h hroom
    have hconcat := h.concat (by omega) hlen
    obtain ⟨stored, hstore, hstored⟩ := ih hconcat (by rw [length_append, length_singleton]; omega)
    rw [append_assoc, singleton_append, ← replicate_succ] at hstore hstored
    refine ⟨stored, ?_, hstored⟩
    rw [Inflater.storeLengths, if_pos (by omega), ← hstore, length_append, length_singleton]

theorem Holds.codeLens_eq (h : Holds lengths lens) {count offset : ℕ}
    (hall : offset + count ≤ lens.length) :
    codeLens lengths count offset = (lens.drop offset).take count := by
  apply ext_getElem
  · rw [length_codeLens, length_take, length_drop]
    omega
  · intro i hi _
    rw [length_codeLens] at hi
    simp only [codeLens, getElem_map, getElem_range, getElem_take, getElem_drop]
    rw [h.get, getD_eq_getElem _ _ (by omega)]
    congr 1
    omega

end

theorem codeLengthOrder_getD : ∀ i < 19, ∀ symbol < 19,
    codeLengthOrder.idxOf symbol = i ↔ symbol = codeLengthOrder.getD i 0 := by
  decide

theorem codeLengthOrder_lt : ∀ i < 19, codeLengthOrder.getD i 0 < 19 := by decide

variable (sent : List ℕ)

/-- The code length code after some of its lengths. -/
def codeLengthsAfter : List ℕ :=
  (List.range 19).map fun symbol => sent.getD (codeLengthOrder.idxOf symbol) 0

theorem length_codeLengthsAfter : (codeLengthsAfter sent).length = 19 := by
  rw [codeLengthsAfter, length_map, length_range]

theorem getD_codeLengthsAfter (symbol : ℕ) :
    (codeLengthsAfter sent).getD symbol 0 =
      if symbol < 19 then sent.getD (codeLengthOrder.idxOf symbol) 0 else 0 := by
  split_ifs with h
  · rw [getD_eq_getElem _ _ (by rwa [length_codeLengthsAfter])]
    simp [codeLengthsAfter]
  · exact getD_eq_default _ _ (by rw [length_codeLengthsAfter]; omega)

theorem Holds.codelen {lengths sent : List ℕ} (h : Holds lengths (codeLengthsAfter sent))
    (hsent : sent.length < 19) {len : ℕ} (hlen : len < 16) :
    Holds (deflateSetLength lengths (codeLengthOrder.getD sent.length 0) len)
      (codeLengthsAfter (sent ++ [len])) := by
  have hsymbol := codeLengthOrder_lt sent.length hsent
  refine h.set (by omega) hlen ?_ fun symbol => ?_
  · rw [getD_codeLengthsAfter, if_pos hsymbol, (codeLengthOrder_getD _ hsent _ hsymbol).2 rfl,
      getD_eq_default _ _ le_rfl]
  · rw [getD_codeLengthsAfter, getD_codeLengthsAfter, getD_concat]
    by_cases hlt : symbol < 19
    · simp only [if_pos hlt, codeLengthOrder_getD _ hsent _ hlt]
    · rw [if_neg hlt, if_neg hlt, if_neg (by omega)]

theorem Holds.none : Holds (replicate deflateLengthsSize 0) (codeLengthsAfter []) := by
  refine ⟨length_replicate, fun symbol => ?_⟩
  rw [Holds.zeroed.get, getD_codeLengthsAfter]
  split_ifs <;> rfl

/-! ## Descriptions of codes -/

/-- The code length code is being read: these are its lengths so far. -/
structure Counting (header : ℕ) (desc : CodeDescription) (buffer output : Bytes)
    (sent : List ℕ) (c : Inflater) : Prop where
  label : c.label = .dynamicCodelen
  header : c.header = header
  steady : Steady buffer output c
  litlenCount : c.litlenCount = desc.codes.litlen.length
  distanceCount : c.distanceCount = desc.codes.dist.length
  target : c.lengthTarget = desc.sent.length
  index : c.lengthIndex = sent.length
  holds : Holds c.lengths (codeLengthsAfter sent)

/-- A description is being read: these are the lengths so far. -/
structure Describing (header : ℕ) (desc : CodeDescription) (buffer output : Bytes)
    (lens : List ℕ) (c : Inflater) : Prop where
  header : c.header = header
  steady : Steady buffer output c
  decodes : Decodes c.distanceCodelen desc.codeLengths
  litlenCount : c.litlenCount = desc.codes.litlen.length
  distanceCount : c.distanceCount = desc.codes.dist.length
  target : c.lengthTarget = desc.codes.litlen.length + desc.codes.dist.length
  index : c.lengthIndex = lens.length
  holds : Holds c.lengths lens
  last : c.length = lens.getLastD 0

section

variable {header : ℕ} {desc : CodeDescription} {buffer output : Bytes} {c : Inflater}

theorem reaches_counts (hvalid : desc.Valid) (hlabel : c.label = .dynamicHeader)
    (hheader : c.header = header) (hsteady : Steady buffer output c) (rest : List Bool) :
    ∃ c', Reaches bitStep
        (c, bitsOf 5 (desc.codes.litlen.length - 257) ++
          (bitsOf 5 (desc.codes.dist.length - 1) ++
            (bitsOf 4 (desc.sent.length - 4) ++ rest))) (c', rest) ∧
      Counting header desc buffer output [] c' := by
  obtain ⟨hsent, hsent'⟩ := hvalid.sent_length
  obtain ⟨hlitlen, hlitlen'⟩ := hvalid.litlen_length
  obtain ⟨hdist, hdist'⟩ := hvalid.dist_length
  obtain ⟨hlit, hhlit⟩ : ∃ hlit, hlit = desc.codes.litlen.length - 257 := ⟨_, rfl⟩
  obtain ⟨hdst, hhdst⟩ : ∃ hdst, hdst = desc.codes.dist.length - 1 := ⟨_, rfl⟩
  obtain ⟨hclen, hhclen⟩ : ∃ hclen, hclen = desc.sent.length - 4 := ⟨_, rfl⟩
  rw [← hhlit, ← hhdst, ← hhclen]
  have hlit_lt : hlit < 2 ^ 5 := by omega
  have hdst_lt : hdst < 2 ^ 5 := by omega
  have hclen_lt : hclen < 2 ^ 4 := by omega
  have hhigh := add_two_pow_mul_lt hdst_lt hclen_lt
  have hbits : bitsOf 5 hlit ++ (bitsOf 5 hdst ++ (bitsOf 4 hclen ++ rest)) =
      bitsOf 14 (hlit + 2 ^ 5 * (hdst + 2 ^ 5 * hclen)) ++ rest := by
    rw [bitsOf_add hlit_lt hhigh, bitsOf_add hdst_lt hclen_lt, append_assoc, append_assoc]
  obtain ⟨regs, label, out⟩ := c
  obtain rfl : label = .dynamicHeader := hlabel
  rw [hbits]
  refine ⟨_, reaches_read nofun (extract_bitsOf (add_two_pow_mul_lt hlit_lt hhigh) rest) rfl, rfl,
    hheader, { hsteady with }, ?_, ?_, ?_, rfl, Holds.none⟩
  all_goals
    simp only [show (0x1f : ℕ) = 2 ^ 5 - 1 from rfl, show (0x0f : ℕ) = 2 ^ 4 - 1 from rfl,
      Nat.and_two_pow_sub_one_eq_mod, Nat.shiftRight_eq_div_pow]
    omega

theorem Counting.reaches_codelen {sent : List ℕ}
    (h : Counting header desc buffer output sent c) {len : ℕ} (hlen : len < 2 ^ 3)
    (hmore : sent.length < desc.sent.length) (hle : desc.sent.length ≤ 19)
    (rest : List Bool) :
    ∃ c', Reaches bitStep (c, bitsOf 3 len ++ rest) (c', rest) ∧
      Counting header desc buffer output (sent ++ [len]) c' := by
  obtain ⟨regs, label, out⟩ := c
  obtain rfl : label = .dynamicCodelen := h.label
  have hindex : regs.lengthIndex = sent.length := h.index
  have hturn : regs.lengthIndex < regs.lengthTarget := by
    rw [hindex, show regs.lengthTarget = _ from h.target]
    exact hmore
  have hread : bitSource.read (Inflater.mk regs .dynamicCodelen out).reads (bitsOf 3 len ++ rest) =
      (some len, rest) := by
    rw [Inflater.reads, if_pos hturn]
    exact extract_bitsOf hlen rest
  refine ⟨_, reaches_read (by simp) hread (if_pos hturn), rfl, h.header, { h.steady with },
    h.litlenCount, h.distanceCount, h.target, ?_, ?_⟩
  · rw [length_append]
    exact congrArg (· + 1) hindex
  · rw [hindex]
    exact h.holds.codelen (by omega) (by omega)

theorem Counting.reaches_codelens (others : List ℕ) (hle : desc.sent.length ≤ 19) :
    ∀ {sent : List ℕ} {c : Inflater}, Counting header desc buffer output sent c →
      sent ++ others = desc.sent → (∀ len ∈ others, len < 8) → ∀ rest,
      ∃ c', Reaches bitStep (c, others.flatMap (bitsOf 3) ++ rest) (c', rest) ∧
        Counting header desc buffer output desc.sent c' := by
  induction others with
  | nil =>
    intro sent c h hall _ rest
    rw [append_nil] at hall
    exact ⟨c, Reaches.refl, hall ▸ h⟩
  | cons len others ih =>
    intro sent c h hall hlt rest
    obtain ⟨hlen, hothers⟩ := forall_mem_cons.1 hlt
    obtain ⟨c₁, hfirst, h₁⟩ := h.reaches_codelen hlen (by simp [← hall]) hle
      (others.flatMap (bitsOf 3) ++ rest)
    obtain ⟨c₂, hreach, h₂⟩ := ih h₁ (by simpa using hall) hothers rest
    exact ⟨c₂, hfirst.trans hreach, h₂⟩

theorem Counting.reaches_end (h : Counting header desc buffer output desc.sent c)
    (hvalid : desc.Valid) (rest : List Bool) :
    ∃ c', Reaches bitStep (c, rest) (c', rest) ∧
      c'.label = .dynamicLitlenDistance ∧ Describing header desc buffer output [] c' := by
  obtain ⟨regs, label, out⟩ := c
  obtain rfl : label = .dynamicCodelen := h.label
  have heq : codeLens regs.lengths (deflateCodelenMaxCode + 1) 0 = desc.codeLengths := by
    rw [h.holds.codeLens_eq (by rw [length_codeLengthsAfter]; decide), drop_zero]
    exact take_of_length_le (by rw [length_codeLengthsAfter]; decide)
  have hcomplete := hvalid.codeLengths_complete
  rw [← heq] at hcomplete
  have hdecodes := @decodes_deflateAlphabet _ regs.distanceCodelen _ _ hcomplete
    (by rw [h.steady.distance_raw]; decide)
  rw [heq] at hdecodes
  have hrc := deflateAlphabet_rc regs.lengths regs.distanceCodelen (deflateCodelenMaxCode + 1) 0
  rw [if_pos hcomplete] at hrc
  have hraw :=
    length_deflateAlphabet_raw regs.lengths regs.distanceCodelen (deflateCodelenMaxCode + 1) 0
  have hdone : ¬ regs.lengthIndex < regs.lengthTarget := (h.index.trans h.target.symm).not_lt
  have hread : bitSource.read (Inflater.mk regs .dynamicCodelen out).reads rest =
      (some 0, rest) := by
    rw [Inflater.reads, if_neg hdone]
    rfl
  have hcontrol : (Inflater.mk regs .dynamicCodelen out).control 0 = _ := if_neg hdone
  generalize deflateAlphabet regs.lengths regs.distanceCodelen (deflateCodelenMaxCode + 1) 0 =
    result at *
  obtain ⟨alphabet, rc⟩ := result
  subst hrc
  exact ⟨_, reaches_read (by simp) hread hcontrol, rfl, h.header, { h.steady with
    distance_raw := hraw.trans h.steady.distance_raw }, hdecodes, h.litlenCount, h.distanceCount,
    congrArg₂ (· + ·) h.litlenCount h.distanceCount, rfl, Holds.zeroed, rfl⟩

theorem lengthItem_control {lens : List ℕ} (h : Describing header desc buffer output lens c)
    (hlabel : c.label = .dynamicLitlenDistance) {item : LengthItem} (hitem : item.Valid lens) :
    ∃ len extraBits dupLen extra, len < 16 ∧ 1 ≤ dupLen ∧ extra < 2 ^ extraBits ∧
      item.extraBits = bitsOf extraBits extra ∧
      item.expand lens = lens ++ replicate (dupLen + extra) len ∧
      c.control item.symbol = .next { c with
        label := .dynamicLitlenDistanceExtra
        length := len
        extraBits := extraBits
        dupLen := dupLen } () := by
  obtain ⟨regs, label, out⟩ := c
  obtain rfl : label = .dynamicLitlenDistance := hlabel
  cases item with
  | length len =>
    have hlen : len < 16 := Nat.lt_succ_of_le hitem
    refine ⟨len, 0, 1, 0, hlen, le_rfl, by norm_num, rfl, rfl, ?_⟩
    change (if len < 16 then _ else _ : Inflater).goto _ _ = _
    rw [if_pos hlen]
    rfl
  | repeatPrevious extra =>
    refine ⟨lens.getLastD 0, 2, 3, extra, Nat.lt_succ_of_le h.holds.getLastD_le, by norm_num,
      hitem.1, rfl, rfl, ?_⟩
    rw [← h.last]
    rfl
  | repeatZero extra =>
    exact ⟨0, 3, 3, extra, by norm_num, by norm_num, hitem, rfl, rfl, rfl⟩
  | repeatZeroLong extra =>
    exact ⟨0, 7, 11, extra, by norm_num, by norm_num, hitem, rfl, rfl, rfl⟩

/-- Where a description goes on behind an item. -/
def describingLabel (desc : CodeDescription) (lens : List ℕ) : DeflateLabel :=
  if lens.length < desc.codes.litlen.length + desc.codes.dist.length then
    .dynamicLitlenDistance
  else .constructAlphabets

theorem reaches_item (hvalid : desc.Valid) {lens : List ℕ}
    (h : Describing header desc buffer output lens c)
    (hlabel : c.label = .dynamicLitlenDistance) {item : LengthItem} (hitem : item.Valid lens)
    (hused : desc.codeLengths.getD item.symbol 0 ≠ 0)
    (hroom : (item.expand lens).length ≤
      desc.codes.litlen.length + desc.codes.dist.length) (rest : List Bool) :
    ∃ c', Reaches bitStep
        (c, codeBits desc.codeLengths item.symbol ++ (item.extraBits ++ rest)) (c', rest) ∧
      c'.label = describingLabel desc (item.expand lens) ∧
      Describing header desc buffer output (item.expand lens) c' := by
  obtain ⟨hlitlen, hlitlen'⟩ := hvalid.litlen_length
  obtain ⟨hdist, hdist'⟩ := hvalid.dist_length
  obtain ⟨len, extraBits, dupLen, extra, hlen, hdup, hextra, hbits, hexpand, hcontrol⟩ :=
    lengthItem_control h hlabel hitem
  rw [hexpand] at hroom ⊢
  obtain ⟨stored, hstore, hstored⟩ := Holds.storeLengths hlen
    (show desc.codes.litlen.length + desc.codes.dist.length ≤ 320 by omega) h.holds
    (show lens.length + (dupLen + extra) ≤ _ by simpa using hroom)
  have hextraControl : Inflater.control
      { c with
        label := .dynamicLitlenDistanceExtra
        length := len
        extraBits := extraBits
        dupLen := dupLen } extra =
      .next { c with
        label := describingLabel desc (lens ++ replicate (dupLen + extra) len)
        length := len
        extraBits := extraBits
        dupLen := dupLen
        lengthIndex := (lens ++ replicate (dupLen + extra) len).length
        lengths := stored } () := by
    dsimp only [Inflater.control, deflateStep, Inflater.dynamicLitlenDistanceExtra, valueSource,
      Outcome.await]
    simp only [h.index, hstore, h.target, describingLabel]
    split_ifs <;> rfl
  obtain ⟨regs, label, out⟩ := c
  obtain rfl : label = .dynamicLitlenDistance := hlabel
  rw [hbits]
  have hfirst := reaches_read (c := ⟨regs, .dynamicLitlenDistance, out⟩) nofun
    (h.decodes _ hused (bitsOf extraBits extra ++ rest)) hcontrol
  refine ⟨_, hfirst.trans (reaches_read nofun (extract_bitsOf hextra rest) hextraControl), rfl,
    h.header, { h.steady with }, h.decodes, h.litlenCount, h.distanceCount, h.target, rfl,
    hstored, ?_⟩
  obtain ⟨count, hcount⟩ := Nat.exists_eq_add_of_le' (show 1 ≤ dupLen + extra by omega)
  rw [hcount, replicate_succ', ← append_assoc, getLastD_concat]

theorem length_expand_le_of_itemsValid {items : List LengthItem} :
    ∀ {lens : List ℕ}, desc.ItemsValid lens items →
      lens.length + items.length ≤
        desc.codes.litlen.length + desc.codes.dist.length := by
  induction items with
  | nil =>
    intro lens hvalid
    rw [show lens = _ from hvalid, length_append]
    exact le_rfl
  | cons item items ih =>
    intro lens hvalid
    have hothers := ih hvalid.2.2
    have hone : lens.length + 1 ≤ (item.expand lens).length := by
      cases item <;> simp only [LengthItem.expand, length_append, length_replicate,
        length_singleton] <;> omega
    rw [length_cons]
    omega

theorem reaches_items (hvalid : desc.Valid) (items : List LengthItem) :
    ∀ {lens : List ℕ} {c : Inflater}, desc.ItemsValid lens items →
      Describing header desc buffer output lens c →
      c.label = describingLabel desc lens → ∀ rest,
      ∃ c', Reaches bitStep
          (c, (items.flatMap fun item =>
            codeBits desc.codeLengths item.symbol ++ item.extraBits) ++ rest) (c', rest) ∧
        c'.label = .constructAlphabets ∧
        Describing header desc buffer output
          (desc.codes.litlen ++ desc.codes.dist) c' := by
  induction items with
  | nil =>
    intro lens c hitems h hlabel rest
    obtain rfl : lens = desc.codes.litlen ++ desc.codes.dist := hitems
    refine ⟨c, Reaches.refl, ?_, h⟩
    rw [hlabel, describingLabel, if_neg (by rw [length_append]; exact lt_irrefl _)]
  | cons item items ih =>
    intro lens c hitems h hlabel rest
    obtain ⟨hitem, hused, hothers⟩ := hitems
    have hroom := length_expand_le_of_itemsValid hothers
    have hmore := @length_expand_le_of_itemsValid _ (item :: items) lens ⟨hitem, hused, hothers⟩
    rw [length_cons] at hmore
    have hreading : c.label = .dynamicLitlenDistance := by
      rw [hlabel, describingLabel, if_pos (by omega)]
    obtain ⟨c₁, hfirst, hlabel₁, h₁⟩ := reaches_item hvalid h hreading hitem hused (by omega)
      ((items.flatMap fun item =>
        codeBits desc.codeLengths item.symbol ++ item.extraBits) ++ rest)
    obtain ⟨c₂, hrest, hend⟩ := ih hothers h₁ hlabel₁ rest
    refine ⟨c₂, ?_, hend⟩
    rw [flatMap_cons, append_assoc, append_assoc]
    exact hfirst.trans hrest

/-- **A description is read** up to the point where its alphabets are constructed. -/
theorem reaches_description (hvalid : desc.Valid) (hlabel : c.label = .dynamicHeader)
    (hheader : c.header = header) (hsteady : Steady buffer output c) (rest : List Bool) :
    ∃ c', Reaches bitStep (c, desc.bits ++ rest) (c', rest) ∧
      c'.label = .constructAlphabets ∧
      Describing header desc buffer output
        (desc.codes.litlen ++ desc.codes.dist) c' := by
  obtain ⟨c₀, hcounts, h₀⟩ := reaches_counts hvalid hlabel hheader hsteady
    (desc.sent.flatMap (bitsOf 3) ++ (desc.itemsBits ++ rest))
  obtain ⟨c₁, hlens, h₁⟩ := h₀.reaches_codelens desc.sent hvalid.sent_length.2 rfl
    hvalid.sent_lt (desc.itemsBits ++ rest)
  obtain ⟨c₂, hlengths, hlabel₂, h₂⟩ := h₁.reaches_end hvalid (desc.itemsBits ++ rest)
  have hlitlen := hvalid.litlen_length.1
  have hstart : c₂.label = describingLabel desc [] := by
    rw [hlabel₂, describingLabel, if_pos (by rw [length_nil]; omega)]
  obtain ⟨c₃, hitems, hend⟩ := reaches_items hvalid desc.items hvalid.items h₂ hstart rest
  refine ⟨c₃, ?_, hend⟩
  simp only [CodeDescription.bits, append_assoc]
  exact ((hcounts.trans hlens).trans hlengths).trans hitems

theorem codeLens_two_of_single {lengths : List ℕ} (hsize : lengths.length = deflateLengthsSize) :
    codeLens (lengths.set 0 0x11) 2 0 = [1, 1] := by
  cases lengths with
  | nil => cases hsize
  | cons byte lengths => simp [codeLens, range_succ, deflateLength]

theorem Decodes.of_single {alphabet : Alphabet} (h : Decodes alphabet [1, 1]) {dist : List ℕ}
    (hlength : dist.length = 1) (hvalid : CodeDescription.DistancesValid dist) :
    Decodes alphabet dist := by
  obtain ⟨len, rfl⟩ := length_eq_one_iff.1 hlength
  have hlen : len = 0 ∨ len = 1 := by
    rcases hvalid with hcomplete | hone | hnone
    · have hsum : (if len = 0 then 0 else 2 ^ (15 - len)) = 2 ^ 15 := by simpa [kraftSum] using hcomplete.2
      split_ifs at hsum with hzero
      have hexp := Nat.pow_right_injective le_rfl hsum
      omega
    · have hmem : len ∈ [len].filter (· ≠ 0) → len = 1 := by
        rw [hone]
        exact mem_singleton.1
      by_cases hzero : len = 0
      · exact .inl hzero
      · exact .inr (hmem (by simp [hzero]))
    · refine .inl ?_
      by_contra hzero
      simp [hzero] at hnone
  intro symbol hused rest
  rcases hlen with rfl | rfl
  · cases symbol <;> exact absurd rfl hused
  · cases symbol with
    | zero => exact h 0 (by decide) rest
    | succ symbol => exact absurd rfl hused

theorem bitStep_constructAlphabets {codes : CodePair} (hlabel : c.label = .constructAlphabets)
    (hheader : c.header = header) (hsteady : Steady buffer output c)
    (hcount : c.litlenCount ≤ 288) (hlitlen : codeLens c.lengths c.litlenCount 0 = codes.litlen)
    (hcomplete : Complete codes.litlen 15) {lens : List ℕ} {lengths : List ℕ} {count offset : ℕ}
    (hdistance : c.distanceLengths = (lengths, count, offset)) (hroom : count ≤ 32)
    (hdist : codeLens lengths count offset = lens) (hdecodes : ∀ alphabet, Decodes alphabet lens →
      Decodes alphabet codes.dist) (bits : List Bool) :
    if Complete lens 15 then
      ∃ c', Reaches bitStep (c, bits) (c', bits) ∧ InBlock header codes buffer output c'
    else ∃ c', bitStep c bits = .halt (.stopped (.error .einval) c' bits) := by
  have hok := deflateAlphabet_rc c.lengths c.litlen c.litlenCount 0
  rw [hlitlen, if_pos hcomplete] at hok
  have hlitlenDecodes := @decodes_deflateAlphabet c.lengths c.litlen c.litlenCount 0
    (by rw [hlitlen]; exact hcomplete) (by rw [hsteady.litlen_raw]; exact hcount)
  have hlitlenRaw := length_deflateAlphabet_raw c.lengths c.litlen c.litlenCount 0
  have hrc := deflateAlphabet_rc lengths c.distanceCodelen count offset
  have hraw := length_deflateAlphabet_raw lengths c.distanceCodelen count offset
  have hdistDecodes := @decodes_deflateAlphabet lengths c.distanceCodelen count offset
  rw [hdist] at hrc hdistDecodes
  rw [hlitlen] at hlitlenDecodes
  have hstep : bitStep c bits = c.constructAlphabets bits := by
    rw [bitStep, deflateStep, hlabel]
  rw [Inflater.constructAlphabets, hdistance] at hstep
  generalize deflateAlphabet c.lengths c.litlen c.litlenCount 0 = litlen at *
  obtain ⟨litlen, rc⟩ := litlen
  subst hok
  dsimp only at hstep
  generalize deflateAlphabet lengths c.distanceCodelen count offset = distance at *
  obtain ⟨distance, rc⟩ := distance
  split_ifs with hdone
  · rw [if_pos hdone] at hrc
    subst hrc
    exact ⟨_, Reaches.next hstep, rfl, hheader, { hsteady with
      litlen_raw := hlitlenRaw.trans hsteady.litlen_raw
      distance_raw := hraw.trans hsteady.distance_raw }, hlitlenDecodes,
      hdecodes _ (hdistDecodes hdone (by rw [hsteady.distance_raw]; exact hroom))⟩
  · rw [if_neg hdone] at hrc
    subst hrc
    exact ⟨_, hstep⟩

/-- **Alphabets of a description.**  They are constructed unless the distances are several and
not complete. -/
theorem reaches_alphabets (hvalid : desc.Valid) (hlabel : c.label = .constructAlphabets)
    (h : Describing header desc buffer output
      (desc.codes.litlen ++ desc.codes.dist) c) (bits : List Bool) :
    if Complete desc.codes.dist 15 ∨ desc.codes.dist.length = 1 then
      ∃ c', Reaches bitStep (c, bits) (c', bits) ∧ InBlock header desc.codes buffer output c'
    else ∃ c', bitStep c bits = .halt (.stopped (.error .einval) c' bits) := by
  have hlitlenLength := hvalid.litlen_length.2
  have hdistLength := hvalid.dist_length.2
  have hlitlen : codeLens c.lengths c.litlenCount 0 = desc.codes.litlen := by
    rw [h.holds.codeLens_eq (by rw [h.litlenCount, length_append]; omega), h.litlenCount,
      drop_zero, take_left]
  have hcount : c.litlenCount ≤ 288 := by
    rw [h.litlenCount]
    omega
  by_cases hsingle : desc.codes.dist.length = 1
  · have hdistance : c.distanceLengths = (c.lengths.set 0 0x11, 2, 0) := by
      rw [Inflater.distanceLengths, if_pos (h.distanceCount.trans hsingle)]
    have hresult := bitStep_constructAlphabets hlabel h.header h.steady hcount hlitlen
      hvalid.litlen_complete hdistance (by norm_num) (codeLens_two_of_single h.holds.size)
      (fun _ hdecodes => hdecodes.of_single hsingle hvalid.distances) bits
    rw [if_pos (.inr hsingle)]
    exact hresult
  · have hdistance : c.distanceLengths = (c.lengths, c.distanceCount, c.litlenCount) := by
      rw [Inflater.distanceLengths, if_neg (by rw [h.distanceCount]; exact hsingle)]
    have hdist : codeLens c.lengths c.distanceCount c.litlenCount = desc.codes.dist := by
      rw [h.holds.codeLens_eq (by rw [h.litlenCount, h.distanceCount, length_append]),
        h.litlenCount, h.distanceCount, drop_left]
      exact take_length
    have hresult := bitStep_constructAlphabets hlabel h.header h.steady hcount hlitlen
      hvalid.litlen_complete hdistance (by rw [h.distanceCount]; exact hdistLength) hdist
      (fun _ hdecodes => hdecodes) bits
    rwa [if_congr (or_iff_left hsingle) rfl rfl]

end

/-! ## Blocks -/

section

variable {header position : ℕ} {buffer output : Bytes} {c : Inflater}

theorem dynamic_block {desc : CodeDescription} {tokens : List Token}
    (hvalid : desc.Valid) (htokens : TokensValid desc.codes output tokens)
    (hlabel : c.label = .dynamicHeader) (hheader : c.header = header)
    (hsteady : Steady buffer output c) (rest : List Bool) :
    if (Block.dynamic desc tokens).Supported then
      ∃ c', Reaches bitStep
          (c, desc.bits ++ (tokensBits desc.codes tokens ++ rest)) (c', rest) ∧
        BlockEnd header buffer (tokens.foldl Token.expand output) c'
    else ∃ c' bits, Halts bitStep c
      (desc.bits ++ (tokensBits desc.codes tokens ++ rest))
      (.stopped (.error .einval) c' bits) := by
  obtain ⟨c₁, hread, hlabel₁, h₁⟩ := reaches_description hvalid hlabel hheader hsteady
    (tokensBits desc.codes tokens ++ rest)
  have halphabets := reaches_alphabets hvalid hlabel₁ h₁
    (tokensBits desc.codes tokens ++ rest)
  change if (Block.dynamic desc tokens).Supported then _ else _ at halphabets
  split_ifs at halphabets ⊢
  · obtain ⟨c₂, hconstruct, h₂⟩ := halphabets
    obtain ⟨c₃, hexpand, hend⟩ := reaches_tokens tokens h₂ htokens rest
    exact ⟨c₃, (hread.trans hconstruct).trans hexpand, hend⟩
  · obtain ⟨c₂, hstop⟩ := halphabets
    exact ⟨c₂, _, hread.halts ((halts_halt hstop).2 rfl)⟩

theorem staticLengths_litlen : codeLens Inflater.staticLengths 288 0 = fixedCodes.litlen := by
  decide +kernel

theorem staticLengths_dist : codeLens Inflater.staticLengths 32 288 = fixedCodes.dist := by
  decide +kernel

theorem codeLens_append {lengths more : List ℕ} {count offset : ℕ}
    (hall : count + offset ≤ 2 * lengths.length) :
    codeLens (lengths ++ more) count offset = codeLens lengths count offset := by
  apply map_congr_left
  intro raw hraw
  rw [mem_range] at hraw
  rw [deflateLength, deflateLength, getD_append _ _ _ _ (by omega)]

theorem fixed_block {tokens : List Token} (htokens : TokensValid fixedCodes output tokens)
    (hlabel : c.label = .staticBlock) (hheader : c.header = header)
    (hsteady : Steady buffer output c) (rest : List Bool) :
    ∃ c', Reaches bitStep (c, tokensBits fixedCodes tokens ++ rest) (c', rest) ∧
      BlockEnd header buffer (tokens.foldl Token.expand output) c' := by
  have hlength : 2 * Inflater.staticLengths.length = 320 := by decide +kernel
  obtain ⟨regs, label, out⟩ := c
  obtain rfl : label = .staticBlock := hlabel
  obtain ⟨c₂, hconstruct, h₂⟩ := @bitStep_constructAlphabets header buffer output
    { regs with
      label := .constructAlphabets
      lengths := Inflater.staticLengths ++ regs.lengths.drop Inflater.staticLengths.length
      litlenCount := 288
      distanceCount := 32
      out := out } fixedCodes rfl hheader { hsteady with } le_rfl
    ((codeLens_append (by change 288 + 0 ≤ _; omega)).trans staticLengths_litlen)
    (by decide +kernel) fixedCodes.dist _ 32 288 rfl le_rfl
    ((codeLens_append (by omega)).trans staticLengths_dist)
    (fun _ hdecodes => hdecodes) (tokensBits fixedCodes tokens ++ rest)
  obtain ⟨c₃, hexpand, hend⟩ := reaches_tokens tokens h₂ htokens rest
  exact ⟨c₃, ((reaches_read (c := ⟨regs, .staticBlock, out⟩) nofun rfl rfl).trans hconstruct).trans
    hexpand, hend⟩

theorem complement_xor {len : ℕ} (h : len < 2 ^ 16) : (65535 - len) ^^^ 0xffff = len := by
  apply Nat.eq_of_testBit_eq
  intro i
  rw [show 65535 - len = 2 ^ 16 - (len + 1) by omega, show (0xffff : ℕ) = 2 ^ 16 - 1 from rfl,
    Nat.testBit_xor, Nat.testBit_two_pow_sub_succ h, Nat.testBit_two_pow_sub_one]
  rcases lt_or_ge i 16 with hi | hi
  · simp [hi]
  · rw [Nat.testBit_lt_two_pow (h.trans_le (Nat.pow_le_pow_right (by norm_num) hi))]
    simp [show ¬ i < 16 by omega]

theorem stored_block {padding : List Bool} {data : Bytes} (hpadding : padding.length < 8)
    (hdata : data.length < 65536) (hlabel : c.label = .literalBlock) (hheader : c.header = header)
    (hsteady : Steady buffer output c) {rest : List Bool} (hrest : rest.length % 8 = 0) :
    ∃ c', Reaches bitStep
        (c, padding ++ (bitsOf 16 data.length ++ (bitsOf 16 (65535 - data.length) ++
          (bytesBits data ++ rest)))) (c', rest) ∧
      BlockEnd header buffer (output ++ data) c' := by
  have hlen : data.length < 2 ^ 16 := hdata
  have hnlen : 65535 - data.length < 2 ^ 16 := by omega
  have htake : takeBytes data.length (bytesBits data ++ rest) = (data, rest) := by
    rw [takeBytes_append, takeBytes_bytesBits, take_length, drop_length]
    simp [takeBytes]
  obtain ⟨regs, label, out⟩ := c
  obtain rfl : label = .literalBlock := hlabel
  have hdiscard : bitSource.discardToByte (padding ++ (bitsOf 16 data.length ++
      (bitsOf 16 (65535 - data.length) ++ (bytesBits data ++ rest)))) =
      bitsOf 16 data.length ++ (bitsOf 16 (65535 - data.length) ++ (bytesBits data ++ rest)) := by
    refine drop_left' ?_
    simp only [length_append, length_bitsOf, length_bytesBits]
    omega
  have hsame : ¬((data.length ^^^ (65535 - data.length ^^^ 0xffff)) &&& (1 <<< 16 - 1) ≠ 0) := by
    rw [complement_xor hlen, Nat.xor_self]
    exact not_not.2 rfl
  have hlens := ((reaches_read (c := ⟨regs, .literalBlock, out⟩) (by simp)
    (congrArg (some 0, ·) hdiscard) rfl).trans (reaches_read (by simp) (extract_bitsOf hlen _) rfl)).trans
    (reaches_read (by simp) (extract_bitsOf hnlen _) (if_neg hsame))
  have hcopy := bitStep_literalData (c := { regs with
    label := .literalData, remaining := data.length, out := out }) rfl (bytesBits data ++ rest)
  rw [literalTaken] at hcopy
  simp only [htake, Nat.sub_self] at hcopy
  exact ⟨_, hlens.trans (Reaches.next hcopy), rfl, hheader,
    { hsteady with shows := hsteady.shows.copy_readFrom data }⟩

def blockLabel (type : ℕ) : DeflateLabel :=
  if type = 0 then .literalBlock else if type = 1 then .staticBlock else .dynamicHeader

theorem reaches_blockHeader (hlabel : c.label = .blockHeader) (last : Bool) {type : ℕ}
    (htype : type < 3) (rest : List Bool) :
    Reaches bitStep (c, last :: (bitsOf 2 type ++ rest))
      ({ c with label := blockLabel type, header := last.toNat + 2 * type }, rest) := by
  have hbits : last :: (bitsOf 2 type ++ rest) = bitsOf 3 (last.toNat + 2 * type) ++ rest := by
    rw [show (3 : ℕ) = 1 + 2 from rfl, show 2 * type = 2 ^ 1 * type from rfl,
      bitsOf_add (by cases last <;> decide) (by omega)]
    cases last <;> rfl
  have hlt : last.toNat + 2 * type < 2 ^ 3 := by
    have := Bool.toNat_le last
    omega
  obtain ⟨regs, label, out⟩ := c
  obtain rfl : label = .blockHeader := hlabel
  rw [hbits]
  refine reaches_read nofun (extract_bitsOf hlt rest) ?_
  interval_cases type <;> cases last <;> rfl

theorem blockHeader_last (last : Bool) (type : ℕ) : (last.toNat + 2 * type) &&& 1 = last.toNat := by
  rw [Nat.and_one_is_mod, Nat.add_mul_mod_self_left]
  cases last <;> rfl

/-- **Blocks.**  A block is decompressed if it is supported, and fails otherwise. -/
theorem block_runs {block : Block} (hvalid : block.Valid position output) (last : Bool)
    (hlabel : c.label = .blockHeader) (hsteady : Steady buffer output c) {rest : List Bool}
    (haligned : (position + (block.bits last ++ rest).length) % 8 = 0) :
    if block.Supported then
      ∃ c', Reaches bitStep (c, block.bits last ++ rest) (c', rest) ∧ c'.label = .blockDone ∧
        c'.header &&& 1 = last.toNat ∧ Steady buffer (block.expand output) c'
    else ∃ c' bits, Halts bitStep c (block.bits last ++ rest)
      (.stopped (.error .einval) c' bits) := by
  have hstart : ∀ type, Steady buffer output
      { c with label := blockLabel type, header := last.toNat + 2 * type } := fun _ =>
    { hsteady with }
  have hend : ∀ {type output c'}, BlockEnd (last.toNat + 2 * type) buffer output c' →
      c'.label = .blockDone ∧ c'.header &&& 1 = last.toNat ∧ Steady buffer output c' := fun h =>
    ⟨h.label, by rw [h.header, blockHeader_last], h.steady⟩
  cases block with
  | stored padding data =>
    obtain ⟨hposition, hpadding, hdata⟩ := hvalid
    have hrest : rest.length % 8 = 0 := by
      simp only [Block.bits, Block.body, length_cons, length_append,
        length_bitsOf, length_bytesBits] at haligned
      omega
    obtain ⟨c', hreach, h⟩ := stored_block hpadding hdata rfl rfl (hstart 0) hrest
    refine ⟨c', ?_, hend h⟩
    simp only [Block.bits, Block.body, cons_append, append_assoc]
    exact (reaches_blockHeader hlabel last (by norm_num) _).trans hreach
  | fixed tokens =>
    obtain ⟨c', hreach, h⟩ := fixed_block hvalid rfl rfl (hstart 1) rest
    exact ⟨c', (reaches_blockHeader hlabel last (by norm_num) _).trans hreach, hend h⟩
  | dynamic desc tokens =>
    have hheader := reaches_blockHeader hlabel last (show 2 < 3 by norm_num)
      (desc.bits ++ (tokensBits desc.codes tokens ++ rest))
    have hblock := dynamic_block hvalid.1 hvalid.2 rfl rfl (hstart 2) rest
    simp only [Block.bits, Block.body, cons_append, append_assoc]
    split_ifs at hblock ⊢
    · obtain ⟨c', hreach, h⟩ := hblock
      exact ⟨c', hheader.trans hreach, hend h⟩
    · obtain ⟨c', bits, hstop⟩ := hblock
      exact ⟨c', bits, hheader.halts hstop⟩

end

end Ipxe.Analysis
