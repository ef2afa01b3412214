import Ipxe.Interface.DeflateBits

/-!
# The tables of an alphabet

`deflate_alphabet` succeeds for the lengths of a complete code and for no others, and its
tables are then those of the canonical code with these lengths.
-/

namespace Ipxe.Analysis

open Library Model List

variable {freq : ℕ → ℕ}

section

variable (lengths : List ℕ)

theorem deflateLength_le (index : ℕ) : deflateLength lengths index ≤ 15 := Nat.and_le_right

theorem codeLens_succ (count offset : ℕ) :
    codeLens lengths (count + 1) offset =
      codeLens lengths count offset ++ [deflateLength lengths (count + offset)] := by
  rw [codeLens, range_succ, map_append]
  rfl

theorem codeLens_beginning (offset : ℕ) {count total : ℕ} (h : count ≤ total) :
    codeLens lengths count offset <+: codeLens lengths total offset := by
  have htake : codeLens lengths count offset = (codeLens lengths total offset).take count := by
    rw [codeLens, codeLens, ← map_take, take_range, min_eq_left h]
  rw [htake]
  exact take_prefix _ _

theorem length_codeLens (count offset : ℕ) : (codeLens lengths count offset).length = count := by
  rw [codeLens, length_map, length_range]

end

theorem le_of_mem_codeLens {lengths : List ℕ} {count offset len : ℕ}
    (h : len ∈ codeLens lengths count offset) : len ≤ 15 := by
  obtain ⟨raw, -, rfl⟩ := mem_map.1 h
  exact deflateLength_le _ _

section

variable {α : Type} (entry : ℕ → α)

/-- The entries for the lengths from one to fifteen. -/
def lengthTable : List α := (List.range' 1 15).map entry

theorem getElem?_lengthTable (i : ℕ) :
    (lengthTable entry)[i]? = if i < 15 then some (entry (i + 1)) else none := by
  rw [lengthTable, getElem?_map]
  split_ifs with h
  · rw [getElem?_range' h, Option.map_some, one_mul, add_comm]
  · rw [getElem?_eq_none (by rw [length_range']; omega), Option.map_none]

theorem getD_lengthTable {len : ℕ} (hpos : 1 ≤ len) (hle : len ≤ 15) (d : α) :
    (lengthTable entry).getD (len - 1) d = entry len := by
  rw [getD_eq_getElem?_getD, getElem?_lengthTable, if_pos (by omega),
    Nat.sub_add_cancel hpos, Option.getD_some]

theorem modify_lengthTable (f : α → α) {len : ℕ} (hpos : 1 ≤ len) :
    (lengthTable entry).modify (len - 1) f =
      lengthTable fun l => if l = len then f (entry l) else entry l := by
  apply ext_getElem?
  intro i
  rw [getElem?_modify, getElem?_lengthTable, getElem?_lengthTable]
  by_cases hi : i < 15
  · by_cases hlen : len - 1 = i
    · simp [hlen, show i + 1 = len by omega]
    · simp [hi, hlen, show i + 1 ≠ len by omega]
  · simp [hi]

end

theorem countSymbols_eq (lengths : List ℕ) (count offset : ℕ) :
    countSymbols lengths count offset =
      lengthTable fun len => { freq := lengthCount (codeLens lengths count offset) len } := by
  induction count with
  | zero => rfl
  | succ count ih =>
    have hstep : countSymbols lengths (count + 1) offset =
        if deflateLength lengths (count + offset) ≠ 0 then
          (countSymbols lengths count offset).modify (deflateLength lengths (count + offset) - 1)
            fun hufSym => { hufSym with freq := hufSym.freq + 1 }
        else countSymbols lengths count offset := by
      rw [countSymbols, range_succ, foldl_append]
      rfl
    rw [hstep, codeLens_succ, ih]
    generalize deflateLength lengths (count + offset) = bits
    split_ifs with hbits
    · rw [modify_lengthTable _ _ (Nat.pos_of_ne_zero hbits)]
      congr 1
      funext len
      rw [lengthCount_concat]
      by_cases hlen : len = bits
      · simp [hlen, hbits]
      · simp [hlen, Ne.symm hlen]
    · congr 1
      funext len
      rw [lengthCount_concat, if_neg (fun h => hbits h.2), add_zero]

section

variable (count : ℕ → ℕ)

theorem shorterCount_succ (len : ℕ) :
    shorterCount count (len + 1) = shorterCount count len + count len :=
  Finset.sum_range_succ _ _

theorem shorterCount_mono {len longer : ℕ} (h : len ≤ longer) :
    shorterCount count len ≤ shorterCount count longer :=
  Finset.sum_le_sum_of_subset (Finset.range_mono h)

theorem populateHuf_eq (n bits : ℕ) :
    (∀ len, bits ≤ len → len < bits + n → endCode count len ≤ 2 ^ len) →
      populateHuf bits (firstCode count bits) (shorterCount count bits)
          ((range' bits n).map fun len => { freq := count len }) =
        ((range' bits n).map fun len => hufEntry count len (shorterCount count len),
          some (firstCode count (bits + n))) := by
  induction n generalizing bits with
  | zero => exact fun _ => rfl
  | succ n ih =>
    intro hroom
    have hfits : ¬ 1 * 2 ^ bits < firstCode count bits + count bits := by
      rw [one_mul, not_lt]
      exact hroom bits le_rfl (by omega)
    have hrest := ih (bits + 1) fun len hge hlt => hroom len (by omega) (by omega)
    rw [firstCode, mul_comm 2, shorterCount_succ] at hrest
    simp only [range'_succ, map_cons, populateHuf, Nat.shiftLeft_eq, if_neg hfits, hrest,
      show bits + 1 + n = bits + (n + 1) by omega]
    rfl

theorem populateHuf_overfull (n bits : ℕ) :
    (∃ len, bits ≤ len ∧ len < bits + n ∧ 2 ^ len < endCode count len) →
      (populateHuf bits (firstCode count bits) (shorterCount count bits)
        ((range' bits n).map fun len => { freq := count len })).2 = none := by
  induction n generalizing bits with
  | zero => rintro ⟨len, hge, hlt, -⟩; omega
  | succ n ih =>
    rintro ⟨len, hge, hlt, hover⟩
    simp only [range'_succ, map_cons, populateHuf, Nat.shiftLeft_eq, one_mul]
    by_cases hfits : 2 ^ bits < firstCode count bits + count bits
    · simp only [if_pos hfits]
    · have hlater : bits ≠ len := by
        rintro rfl
        exact hfits hover
      have hrest := ih (bits + 1) ⟨len, by omega, by omega, hover⟩
      rw [firstCode, mul_comm 2, shorterCount_succ] at hrest
      simp only [if_neg hfits, hrest]

end

/-! ## Raw symbols -/

section

variable (lengths : List ℕ) (offset : ℕ)

theorem populateRaw_succ (count : ℕ) (huf : List HufSymbols) (raws : List ℕ) :
    populateRaw lengths (count + 1) offset huf raws =
      if deflateLength lengths (count + offset) ≠ 0 then
        ((populateRaw lengths count offset huf raws).1.modify
            (deflateLength lengths (count + offset) - 1)
            fun hufSym => { hufSym with raw := hufSym.raw + 1 },
          (populateRaw lengths count offset huf raws).2.set
            ((populateRaw lengths count offset huf raws).1.getD
              (deflateLength lengths (count + offset) - 1) {}).raw.toNat count)
      else populateRaw lengths count offset huf raws := by
  rw [populateRaw, range_succ, foldl_append]
  rfl

theorem populateRaw_huf (freq : ℕ → ℕ) (base : ℕ → ℤ) (raws : List ℕ) (count : ℕ) :
    (populateRaw lengths count offset (lengthTable fun len => hufEntry freq len (base len)) raws).1 =
      lengthTable fun len =>
        hufEntry freq len (base len + lengthCount (codeLens lengths count offset) len) := by
  induction count with
  | zero =>
    have hnone : ∀ len, lengthCount (codeLens lengths 0 offset) len = 0 := by
      intro len
      simp [codeLens, lengthCount]
    simp only [hnone, Nat.cast_zero, add_zero]
    rfl
  | succ count ih =>
    rw [populateRaw_succ, codeLens_succ]
    generalize deflateLength lengths (count + offset) = bits
    split_ifs with hbits
    · simp only [ih, modify_lengthTable _ _ (Nat.pos_of_ne_zero hbits)]
      congr 1
      funext len
      rw [lengthCount_concat]
      by_cases hlen : len = bits
      · simp [hlen, hufEntry, hbits, add_assoc]
      · simp [hlen, Ne.symm hlen]
    · rw [ih]
      congr 1
      funext len
      rw [lengthCount_concat, if_neg (fun h => hbits h.2), add_zero]

theorem length_populateRaw (huf : List HufSymbols) (raws : List ℕ) (count : ℕ) :
    (populateRaw lengths count offset huf raws).2.length = raws.length := by
  induction count with
  | zero => rfl
  | succ count ih =>
    rw [populateRaw_succ]
    split_ifs
    · rw [length_set, ih]
    · exact ih

theorem populateRaw_lt {bound : ℕ} (huf : List HufSymbols) {raws : List ℕ} {count : ℕ}
    (hraws : ∀ raw ∈ raws, raw < bound) (hcount : count ≤ bound) :
    ∀ raw ∈ (populateRaw lengths count offset huf raws).2, raw < bound := by
  induction count with
  | zero => exact hraws
  | succ count ih =>
    have hbefore := ih (by omega)
    rw [populateRaw_succ]
    split_ifs
    · intro raw hraw
      rcases mem_or_eq_of_mem_set hraw with hmem | rfl
      · exact hbefore raw hmem
      · omega
    · exact hbefore

theorem shorterCount_le_length (lens : List ℕ) (len : ℕ) :
    shorterCount (lengthCount lens) len ≤ lens.length := by
  calc shorterCount (lengthCount lens) len
      ≤ ∑ i ∈ Finset.range len, lens.count i := by
        refine Finset.sum_le_sum fun i _ => ?_
        unfold lengthCount
        split_ifs <;> omega
    _ ≤ ∑ i ∈ Finset.range len ∪ lens.toFinset, lens.count i :=
        Finset.sum_le_sum_of_subset Finset.subset_union_left
    _ = lens.length := by
        have hall : ∀ l ∈ (lens : Multiset ℕ), l ∈ Finset.range len ∪ lens.toFinset :=
          fun l hl => Finset.mem_union_right _ (mem_toFinset.2 hl)
        simpa using Multiset.sum_count_eq_card hall

/-- The raw symbols of the lengths so far are in their places. -/
def RawOrdered (freq : ℕ → ℕ) (lens raws : List ℕ) : Prop :=
  ∀ len k, k < lengthCount lens len →
    raws.getD (shorterCount freq len + k) 0 = (symbolsOf lens len).getD k 0

theorem RawOrdered.store {lens raws : List ℕ} (h : RawOrdered freq lens raws) {bits : ℕ}
    (hpos : bits ≠ 0) (hbits : bits ≤ 15) (hroom : shorterCount freq 16 ≤ raws.length)
    (hle : ∀ len, lengthCount (lens ++ [bits]) len ≤ freq len) :
    RawOrdered freq (lens ++ [bits])
      (raws.set (shorterCount freq bits + lengthCount lens bits) lens.length) := by
  have hlast : lengthCount lens bits < freq bits := by
    have hmore := hle bits
    rw [lengthCount_concat, if_pos ⟨rfl, hpos⟩] at hmore
    omega
  intro len k hk
  have hfreq := hk.trans_le (hle len)
  rw [lengthCount_concat] at hk
  rw [symbolsOf_concat]
  by_cases hlen : bits = len
  · subst hlen
    have hplaces : (symbolsOf lens bits).length = lengthCount lens bits := by
      rw [length_symbolsOf, lengthCount, if_neg hpos]
    rw [if_pos ⟨rfl, hpos⟩] at hk
    rw [if_pos rfl]
    rcases Nat.lt_succ_iff_lt_or_eq.1 hk with hold | rfl
    · rw [getD_eq_getElem?_getD, getElem?_set_ne (by omega), ← getD_eq_getElem?_getD,
        h bits k hold, getD_append _ _ _ _ (by omega)]
    · have hinside : shorterCount freq bits + lengthCount lens bits < raws.length := by
        have hnext := shorterCount_succ freq bits
        have hmono := shorterCount_mono freq (show bits + 1 ≤ 16 by omega)
        omega
      rw [getD_eq_getElem?_getD, getElem?_set_self hinside,
        getD_append_right _ _ _ _ (by omega), hplaces, Nat.sub_self]
      rfl
  · rw [if_neg (fun h => hlen h.1), add_zero] at hk
    -- the places of another length lie all before or all behind those of this one
    have hapart : shorterCount freq bits + lengthCount lens bits ≠ shorterCount freq len + k := by
      rcases Nat.lt_or_gt_of_ne hlen with hlt | hgt
      · have hnext := shorterCount_succ freq bits
        have hmono := shorterCount_mono freq (show bits + 1 ≤ len by omega)
        omega
      · have hnext := shorterCount_succ freq len
        have hmono := shorterCount_mono freq (show len + 1 ≤ bits by omega)
        omega
    rw [if_neg hlen, append_nil, getD_eq_getElem?_getD, getElem?_set_ne hapart,
      ← getD_eq_getElem?_getD, h len k hk]

/-- **Raw symbols are ordered** by the length of their word, and then by their value. -/
theorem populateRaw_raw {raws : List ℕ} {total : ℕ} (hroom : total ≤ raws.length) {count : ℕ}
    (hcount : count ≤ total) (hfreq : freq = lengthCount (codeLens lengths total offset)) :
    RawOrdered freq (codeLens lengths count offset)
      (populateRaw lengths count offset
        (lengthTable fun len => hufEntry freq len (shorterCount freq len)) raws).2 := by
  induction count with
  | zero =>
    intro len k hk
    simp [codeLens, lengthCount] at hk
  | succ count ih =>
    have hbefore := ih (by omega)
    have hbits := deflateLength_le lengths (count + offset)
    have hle : ∀ len, lengthCount (codeLens lengths (count + 1) offset) len ≤ freq len := by
      intro len
      rw [hfreq]
      exact lengthCount_mono (codeLens_beginning lengths offset hcount) len
    have hall : shorterCount freq 16 ≤ raws.length := by
      rw [hfreq]
      exact (shorterCount_le_length _ _).trans (by rwa [length_codeLens])
    rw [codeLens_succ] at hle ⊢
    rw [populateRaw_succ, populateRaw_huf]
    split_ifs with hzero
    · rw [getD_lengthTable _ (Nat.pos_of_ne_zero hzero) hbits]
      have hstore := hbefore.store hzero hbits (by rwa [length_populateRaw]) hle
      rw [length_codeLens] at hstore
      exact hstore
    · rw [not_not] at hzero
      rw [hzero]
      intro len k hk
      rw [lengthCount_concat, if_neg (fun h => h.2 rfl)] at hk
      have hlen : len ≠ 0 := by
        rintro rfl
        exact absurd hk (Nat.not_lt_zero _)
      rw [symbolsOf_concat, if_neg (Ne.symm hlen), append_nil]
      exact hbefore len k hk

end

theorem length_fillLookup (lookup : List ℕ) (hufSym : HufSymbols) (h : lookup.length = 128) :
    (fillLookup lookup hufSym).length = 128 := by
  rw [fillLookup, length_append, length_take, length_replicate, h]
  change min _ 128 + (128 - _) = 128
  omega

theorem getD_fillLookup {lookup : List ℕ} (hufSym : HufSymbols) (h : lookup.length = 128) {i : ℕ}
    (hi : i < 128) :
    (fillLookup lookup hufSym).getD i 0 =
      if i < hufSym.start / 2 ^ 9 then lookup.getD i 0 else hufSym.bits - 1 := by
  have hfirst : hufSym.start >>> deflateHuffmanQlShift = hufSym.start / 2 ^ 9 :=
    Nat.shiftRight_eq_div_pow _ _
  simp only [fillLookup, hfirst]
  generalize hufSym.start / 2 ^ 9 = first
  split_ifs with hlt
  · rw [getD_append _ _ _ _ (by rw [length_take]; omega), getD_eq_getElem?_getD,
      getElem?_take_of_lt hlt, getD_eq_getElem?_getD]
  · have hshort : (lookup.take first).length = first := by rw [length_take]; omega
    have hinside : i - first < 1 <<< deflateHuffmanQlBits - first := by
      change i - first < 128 - first
      omega
    rw [getD_append_right _ _ _ _ (by omega), hshort, getD_eq_getElem?_getD,
      getElem?_replicate_of_lt hinside, Option.getD_some]

theorem foldl_fillLookup (freq : ℕ → ℕ) (hfreq : freq 0 = 0) (raw : ℕ → ℤ) (lookup : List ℕ) (n : ℕ) :
    let filled := ((range' 1 (n + 1)).map fun len => hufEntry freq len (raw len)).foldl
      fillLookup lookup
    filled.length = 128 ∧
      ∀ i < 128, ∃ len, (1 ≤ len ∧ len ≤ n + 1) ∧ filled.getD i 0 = len - 1 ∧
        ∀ longer, len < longer → longer ≤ n + 1 →
          i < firstCode freq longer * 2 ^ (16 - longer) / 2 ^ 9 := by
  induction n with
  | zero =>
    have hstart : (hufEntry freq 1 (raw 1)).start = 0 := by simp [hufEntry, firstCode, hfreq]
    have hfill : fillLookup lookup (hufEntry freq 1 (raw 1)) = replicate 128 0 := by
      simp only [fillLookup, hstart]
      rfl
    change (fillLookup lookup (hufEntry freq 1 (raw 1))).length = 128 ∧
      ∀ i < 128, ∃ len, _ ∧ (fillLookup lookup (hufEntry freq 1 (raw 1))).getD i 0 = _ ∧ _
    rw [hfill]
    refine ⟨rfl, fun i hi => ⟨1, ⟨le_rfl, le_rfl⟩, ?_, fun longer hlt hle => by omega⟩⟩
    rw [getD_eq_getElem?_getD, getElem?_replicate_of_lt hi]
    rfl
  | succ n ih =>
    obtain ⟨hlength, hlookup⟩ := ih
    rw [range'_concat, map_append, foldl_append, one_mul]
    rw [show 1 + (n + 1) = n + 2 by omega]
    change (fillLookup _ (hufEntry freq (n + 2) (raw (n + 2)))).length = 128 ∧
      ∀ i < 128, ∃ len, _ ∧ (fillLookup _ (hufEntry freq (n + 2) (raw (n + 2)))).getD i 0 = _ ∧ _
    refine ⟨length_fillLookup _ _ hlength, fun i hi => ?_⟩
    rw [getD_fillLookup _ hlength hi]
    split_ifs with hlt
    · obtain ⟨len, hrange, hvalue, hlonger⟩ := hlookup i hi
      refine ⟨len, ⟨hrange.1, by omega⟩, hvalue, fun longer hlt' hle => ?_⟩
      rcases lt_or_ge longer (n + 2) with hbefore | hlast
      · exact hlonger longer hlt' (by omega)
      · obtain rfl : longer = n + 2 := by omega
        exact hlt
    · exact ⟨n + 2, ⟨by omega, le_rfl⟩, rfl, fun longer hlt' hle => by omega⟩

/-! ## What `deflate_alphabet` does -/

theorem hufEntry_start_shift (freq : ℕ → ℕ) (len : ℕ) (raw : ℤ) :
    (hufEntry freq len raw).start >>> (hufEntry freq len raw).shift = firstCode freq len := by
  rw [hufEntry, Nat.shiftRight_eq_div_pow, Nat.mul_div_cancel _ (Nat.two_pow_pos _)]

theorem adjustRaw_hufEntry (freq : ℕ → ℕ) (len : ℕ) :
    adjustRaw (hufEntry freq len (shorterCount freq len + freq len)) =
      hufEntry freq len (shorterCount freq len - firstCode freq len) := by
  rw [adjustRaw, hufEntry_start_shift]
  simp [hufEntry]

section

variable (lengths : List ℕ) (alphabet : Alphabet) (count offset : ℕ)

section

variable (hfreq : freq = lengthCount (codeLens lengths count offset))

include hfreq

theorem populateHuf_start :
    populateHuf 1 0 0 (countSymbols lengths count offset) =
      populateHuf 1 (firstCode freq 1) (shorterCount freq 1)
        ((range' 1 15).map fun len => { freq := freq len }) := by
  have hfirst : firstCode freq 1 = 0 := by simp [firstCode, hfreq]
  have hshorter : shorterCount freq 1 = 0 := by simp [shorterCount, hfreq]
  rw [hfirst, hshorter, countSymbols_eq, ← hfreq]
  rfl

theorem populateHuf_countSymbols (hroom : endCode freq 15 ≤ 2 ^ 15) :
    populateHuf 1 0 0 (countSymbols lengths count offset) =
      (lengthTable fun len => hufEntry freq len (shorterCount freq len),
        some (2 * endCode freq 15)) := by
  rw [populateHuf_start lengths count offset hfreq, populateHuf_eq freq 15 1 fun len _ hlt =>
    endCode_le_two_pow freq (show len ≤ 15 by omega) hroom, firstCode_succ]
  rfl

theorem deflateAlphabet_of_complete (hcomplete : endCode freq 15 = 2 ^ 15) :
    deflateAlphabet lengths alphabet count offset =
      ({ huf := lengthTable fun len => hufEntry freq len (shorterCount freq len - firstCode freq len)
         lookup :=
          (lengthTable fun len => hufEntry freq len (shorterCount freq len + freq len)).foldl
            fillLookup alphabet.lookup
         raw :=
          (populateRaw lengths count offset
            (lengthTable fun len => hufEntry freq len (shorterCount freq len)) alphabet.raw).2 },
        .ok ()) := by
  have hmoved := populateRaw_huf lengths offset freq (fun len => shorterCount freq len)
    alphabet.raw count
  have hadjusted : (lengthTable fun len =>
      hufEntry freq len (shorterCount freq len + freq len)).map adjustRaw =
        lengthTable fun len => hufEntry freq len (shorterCount freq len - firstCode freq len) := by
    rw [lengthTable, map_map]
    exact map_congr_left fun len _ => adjustRaw_hufEntry freq len
  rw [← hfreq] at hmoved
  rw [deflateAlphabet, populateHuf_countSymbols lengths count offset hfreq hcomplete.le]
  simp only [hmoved, hadjusted]
  rw [if_pos (by rw [hcomplete]; rfl)]

end

/-- **An alphabet is constructed for the complete codes.** -/
theorem deflateAlphabet_rc :
    (deflateAlphabet lengths alphabet count offset).2 =
      if Complete (codeLens lengths count offset) 15 then .ok () else .error .einval := by
  rw [if_congr (complete_iff fun len h => le_of_mem_codeLens h) rfl rfl]
  obtain ⟨freq, hfreq⟩ : ∃ freq, freq = lengthCount (codeLens lengths count offset) := ⟨_, rfl⟩
  rw [← hfreq]
  split_ifs with hcomplete
  · rw [deflateAlphabet_of_complete lengths alphabet count offset hfreq hcomplete]
  · rcases le_or_gt (endCode freq 15) (2 ^ 15) with hroom | hover
    · rw [deflateAlphabet, populateHuf_countSymbols lengths count offset hfreq hroom]
      have hnot : ¬ 2 * endCode freq 15 = 1 <<< (deflateHuffmanBits + 1) := by
        change ¬ 2 * endCode freq 15 = 2 * 2 ^ 15
        omega
      simp only [if_neg hnot]
    · have hnone := populateHuf_overfull freq 15 1 ⟨15, by omega, by omega, hover⟩
      rw [← populateHuf_start lengths count offset hfreq] at hnone
      rw [deflateAlphabet]
      generalize populateHuf 1 0 0 (countSymbols lengths count offset) = populated at hnone ⊢
      obtain ⟨huf, last⟩ := populated
      cases hnone
      rfl

theorem deflateAlphabet_tables (hcomplete : Complete (codeLens lengths count offset) 15) :
    (deflateAlphabet lengths alphabet count offset).1.Tables (codeLens lengths count offset) := by
  have hend := hcomplete.endCode_eq
  rw [deflateAlphabet_of_complete lengths alphabet count offset rfl hend]
  have hzero := lengthCount_zero (codeLens lengths count offset)
  refine ⟨hend, fun len hpos hle => ?_, ?_⟩
  · rw [Alphabet.symbols, getD_lengthTable _ hpos hle]
  · generalize lengthCount (codeLens lengths count offset) = freq at hzero ⊢
    have hlookup := foldl_fillLookup freq hzero (fun len => shorterCount freq len + freq len)
      alphabet.lookup 14
    exact hlookup.2

theorem deflateAlphabet_ok (h : (deflateAlphabet lengths alphabet count offset).2 = .ok ()) :
    Complete (codeLens lengths count offset) 15 ∧
      (deflateAlphabet lengths alphabet count offset).1.Tables (codeLens lengths count offset) := by
  have hcomplete : Complete (codeLens lengths count offset) 15 := by
    by_contra hnot
    rw [deflateAlphabet_rc, if_neg hnot] at h
    cases h
  exact ⟨hcomplete, deflateAlphabet_tables lengths alphabet count offset hcomplete⟩

theorem length_deflateAlphabet_raw :
    (deflateAlphabet lengths alphabet count offset).1.raw.length = alphabet.raw.length := by
  unfold deflateAlphabet
  split
  · rfl
  · dsimp only
    split_ifs <;> exact length_populateRaw _ _ _ _ _

theorem deflateAlphabet_raw_lt {bound : ℕ} (hraw : ∀ raw ∈ alphabet.raw, raw < bound)
    (hcount : count ≤ bound) :
    ∀ raw ∈ (deflateAlphabet lengths alphabet count offset).1.raw, raw < bound := by
  unfold deflateAlphabet
  split
  · exact hraw
  · dsimp only
    split_ifs <;> exact populateRaw_lt _ _ _ hraw hcount

/-- **A word stands for its symbol**: the raw symbols are found by their words. -/
theorem rawAt_codeOf (hcomplete : Complete (codeLens lengths count offset) 15)
    (hroom : count ≤ alphabet.raw.length) {symbol len : ℕ}
    (hlen : (codeLens lengths count offset).getD symbol 0 = len) (hused : len ≠ 0) :
    (deflateAlphabet lengths alphabet count offset).1.rawAt
        ((deflateAlphabet lengths alphabet count offset).1.symbols len)
        (codeOf (codeLens lengths count offset) symbol) = symbol := by
  subst hlen
  have hsymbol := lt_length_of_getD_ne_zero _ hused
  have hmem : (codeLens lengths count offset).getD symbol 0 ∈ codeLens lengths count offset := by
    rw [getD_eq_getElem _ _ hsymbol]
    exact getElem_mem hsymbol
  have hplace := symbolsOf_getElem?_symbolRank _ hsymbol
  have hrank := symbolRank_lt _ hsymbol
  have htables := deflateAlphabet_tables lengths alphabet count offset hcomplete
  have hordered := populateRaw_raw lengths offset hroom le_rfl rfl
  rw [htables.symbols_eq _ (Nat.pos_of_ne_zero hused) (le_of_mem_codeLens hmem), Alphabet.rawAt,
    deflateAlphabet_of_complete lengths alphabet count offset rfl hcomplete.endCode_eq]
  generalize codeLens lengths count offset = lens at *
  generalize hlen : lens.getD symbol 0 = len at *
  have hindex : (hufEntry (lengthCount lens) len
      (shorterCount (lengthCount lens) len - firstCode (lengthCount lens) len)).raw +
        (codeOf lens symbol : ℕ) = (shorterCount (lengthCount lens) len + symbolRank lens symbol : ℕ) := by
    rw [codeOf, hlen, hufEntry]
    push_cast
    ring
  rw [hindex, Int.toNat_natCast, hordered len _ (by rwa [lengthCount, if_neg hused]),
    getD_eq_getElem?_getD, hplace, Option.getD_some]

end

end Ipxe.Analysis
