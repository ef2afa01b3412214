import Mathlib.Data.List.GetD
import Ipxe.Library.BitStrings

/-!
# Canonical prefix codes

A canonical code is given by the lengths of its words: words of one length are consecutive numbers
in the order of their symbols, and shorter words come first.  A code is complete if every long
enough string begins with a word, which Kraft's equality decides.
-/

namespace Ipxe.Library

open List

variable {symbol : ℕ}

section

variable (count : ℕ → ℕ)

/-- The words of length `len` are the `count len` numbers from here on. -/
def firstCode : ℕ → ℕ
  | 0 => 0
  | len + 1 => 2 * (firstCode len + count len)

variable (len : ℕ)

def endCode : ℕ := firstCode count len + count len

/-- A further bit behind the codes so far. -/
theorem firstCode_succ : firstCode count (len + 1) = 2 * endCode count len := rfl

/-- The codes of a length are in order. -/
theorem firstCode_le_endCode : firstCode count len ≤ endCode count len :=
  Nat.le_add_right _ _

/-- Longer codes come behind the extensions of shorter ones. -/
theorem two_pow_mul_endCode_le {len longer : ℕ} (h : len < longer) :
    2 ^ (longer - len) * endCode count len ≤ firstCode count longer := by
  induction longer, h using Nat.le_induction with
  | base => rw [Nat.succ_eq_add_one, Nat.add_sub_cancel_left, pow_one, firstCode_succ]
  | succ longer h ih =>
    have hle := firstCode_le_endCode count longer
    rw [firstCode_succ, show longer + 1 - len = longer - len + 1 by omega, pow_succ', mul_assoc]
    omega

/-- If there is room for the longest codes, there is for all. -/
theorem endCode_le_two_pow {len longest : ℕ} (h : len ≤ longest)
    (hroom : endCode count longest ≤ 2 ^ longest) : endCode count len ≤ 2 ^ len := by
  rcases h.eq_or_lt with rfl | hlt
  · exact hroom
  · have hscaled := (two_pow_mul_endCode_le count hlt).trans
      ((firstCode_le_endCode count longest).trans hroom)
    rw [show 2 ^ longest = 2 ^ (longest - len) * 2 ^ len by rw [← pow_add]; congr 1; omega]
      at hscaled
    exact Nat.le_of_mul_le_mul_left hscaled (Nat.two_pow_pos _)

/-- Longer codes do not matter. -/
theorem endCode_congr {count count' : ℕ → ℕ} {len : ℕ} (h : ∀ l ≤ len, count l = count' l) :
    endCode count len = endCode count' len := by
  induction len with
  | zero => rw [endCode, endCode, h 0 le_rfl]; rfl
  | succ len ih =>
    rw [endCode, firstCode_succ, ih fun l hl => h l (by omega), h (len + 1) le_rfl]
    rfl

/-- Codes take up room independently. -/
theorem endCode_add (count' : ℕ → ℕ) (len : ℕ) :
    endCode (fun l => count l + count' l) len = endCode count len + endCode count' len := by
  induction len with
  | zero => simp [endCode, firstCode]
  | succ len ih =>
    simp only [endCode] at ih ⊢
    rw [firstCode, ih, firstCode, firstCode]
    ring

/-- The room that one code takes up. -/
theorem endCode_single (longer : ℕ) :
    endCode (fun l => if l = len then 1 else 0) longer =
      if len ≤ longer then 2 ^ (longer - len) else 0 := by
  induction longer with
  | zero =>
    cases len with
    | zero => rfl
    | succ len => rfl
  | succ longer ih =>
    rw [endCode, firstCode_succ, ih]
    rcases lt_trichotomy len (longer + 1) with h | h | h
    · rw [if_pos (by omega), if_neg (by omega), if_pos (by omega),
        show longer + 1 - len = longer - len + 1 by omega, pow_succ]
      ring
    · rw [if_neg (by omega), if_pos h.symm, h]
      simp
    · rw [if_neg (by omega), if_neg (by omega), if_neg (by omega)]

end

section

variable (count : ℕ → ℕ) (longest : ℕ)

/-- The length of the word at the front, if all of it is there. -/
def codeLength (bits : List Bool) : Option ℕ :=
  (List.range' 1 longest).find? fun len =>
    len ≤ bits.length ∧ msbValue (bits.take len) < endCode count len

variable {count longest} {bits : List Bool} {len : ℕ}

/-- The shortest length at which the bits are below the end of the codes. -/
theorem codeLength_eq_some_iff :
    codeLength count longest bits = some len ↔
      (1 ≤ len ∧ len ≤ longest) ∧ len ≤ bits.length ∧ msbValue (bits.take len) < endCode count len ∧
        ∀ shorter, 1 ≤ shorter → shorter < len →
          endCode count shorter ≤ msbValue (bits.take shorter) := by
  rw [codeLength, find?_range'_eq_some, mem_range'_1]
  constructor
  · rintro ⟨hword, hrange, hnot⟩
    have ⟨hlen, hlt⟩ : len ≤ bits.length ∧ _ := of_decide_eq_true hword
    refine ⟨⟨hrange.1, by omega⟩, hlen, hlt, fun shorter hpos hshorter => ?_⟩
    have hno := hnot shorter hpos hshorter
    rw [Bool.not_eq_true', decide_eq_false_iff_not, not_and, not_lt] at hno
    exact hno (by omega)
  · rintro ⟨hrange, hlen, hlt, hnot⟩
    refine ⟨decide_eq_true ⟨hlen, hlt⟩, ⟨hrange.1, by omega⟩, fun shorter hpos hshorter => ?_⟩
    rw [Bool.not_eq_true', decide_eq_false_iff_not, not_and, not_lt]
    exact fun _ => hnot shorter hpos hshorter

/-- The bits are at no length below it. -/
theorem codeLength_eq_none_iff :
    codeLength count longest bits = none ↔
      ∀ len, 1 ≤ len → len ≤ longest → len ≤ bits.length →
        endCode count len ≤ msbValue (bits.take len) := by
  rw [codeLength, find?_eq_none]
  constructor
  · intro hnone len hpos hle hlen
    have hno := hnone len (by rw [mem_range'_1]; omega)
    simpa [hlen] using hno
  · intro hnone len hmem
    rw [mem_range'_1] at hmem
    simpa using fun hlen => hnone len hmem.1 (by omega) hlen

/-- Codes that are too long do not matter. -/
theorem codeLength_congr {count' : ℕ → ℕ} (h : ∀ l ≤ longest, count l = count' l) :
    codeLength count longest bits = codeLength count' longest bits := by
  apply find?_congr
  intro len hmem
  rw [mem_range'_1] at hmem
  rw [endCode_congr fun l hl => h l (by omega)]

/-- Further bits do not change a length that is found. -/
theorem codeLength_append (h : codeLength count longest bits = some len) (more : List Bool) :
    codeLength count longest (bits ++ more) = some len := by
  rw [codeLength_eq_some_iff] at h ⊢
  obtain ⟨hrange, hlen, hlt, hnot⟩ := h
  refine ⟨hrange, by rw [length_append]; omega, ?_, fun shorter hpos hshorter => ?_⟩
  · rwa [take_append_of_le_length hlen]
  · rw [take_append_of_le_length (by omega)]
    exact hnot shorter hpos hshorter

/-- Where no code is empty, the word is not before the first one. -/
theorem firstCode_le_of_codeLength (hzero : count 0 = 0)
    (h : codeLength count longest bits = some len) :
    firstCode count len ≤ msbValue (bits.take len) := by
  obtain ⟨⟨hpos, -⟩, hlen, -, hnot⟩ := codeLength_eq_some_iff.1 h
  obtain ⟨shorter, rfl⟩ := Nat.exists_eq_add_of_le' hpos
  rcases Nat.eq_zero_or_pos shorter with rfl | hshorter
  · simp [firstCode, hzero]
  · have hprev := hnot shorter hshorter (Nat.lt_succ_self _)
    have hhalf : msbValue (bits.take shorter) = msbValue (bits.take (shorter + 1)) / 2 := by
      have htake := msbValue_take shorter (bits.take (shorter + 1))
      rwa [take_take, min_eq_left (Nat.le_succ _), length_take, min_eq_left hlen,
        Nat.add_sub_cancel_left] at htake
    rw [firstCode_succ]
    omega

/-- A word among the codes of its length is found. -/
theorem codeLength_word {word : List Bool} (hlen : 1 ≤ word.length ∧ word.length ≤ longest)
    (hfirst : firstCode count word.length ≤ msbValue word)
    (hlast : msbValue word < endCode count word.length) (more : List Bool) :
    codeLength count longest (word ++ more) = some word.length := by
  apply codeLength_append
  rw [codeLength_eq_some_iff, take_length]
  refine ⟨hlen, le_rfl, hlast, fun shorter hpos hshorter => ?_⟩
  have hscaled := (two_pow_mul_endCode_le count hshorter).trans hfirst
  rw [msbValue_take, Nat.le_div_iff_mul_le (Nat.two_pow_pos _), mul_comm]
  exact hscaled

/-- A complete code only fails for want of bits. -/
theorem length_lt_of_codeLength_eq_none (hpos : 1 ≤ longest)
    (hcomplete : endCode count longest = 2 ^ longest)
    (h : codeLength count longest bits = none) : bits.length < longest := by
  by_contra hlong
  rw [not_lt] at hlong
  have hle := codeLength_eq_none_iff.1 h longest hpos le_rfl hlong
  have hlt := msbValue_lt (bits.take longest)
  rw [length_take, min_eq_left hlong] at hlt
  omega

end

section

variable (lengths : List ℕ)

/-- How many symbols have a word of this length. -/
def lengthCount (len : ℕ) : ℕ := if len = 0 then 0 else lengths.count len

/-- Length zero is no code. -/
@[simp] theorem lengthCount_zero : lengthCount lengths 0 = 0 := rfl

/-- One more symbol. -/
theorem lengthCount_concat (l len : ℕ) :
    lengthCount (lengths ++ [l]) len =
      lengthCount lengths len + if l = len ∧ l ≠ 0 then 1 else 0 := by
  unfold lengthCount
  rw [count_append, count_singleton]
  by_cases hlen : len = 0
  · rw [if_pos hlen, if_pos hlen, if_neg (by omega)]
  · by_cases hl : l = len
    · rw [if_neg hlen, if_neg hlen, if_pos (by simpa using hl), if_pos ⟨hl, by omega⟩]
    · rw [if_neg hlen, if_neg hlen, if_neg (by simpa using hl), if_neg (by tauto)]

variable {lengths} in
/-- More symbols do not have fewer codes. -/
theorem lengthCount_mono {longer : List ℕ} (h : lengths <+: longer) (len : ℕ) :
    lengthCount lengths len ≤ lengthCount longer len := by
  unfold lengthCount
  split_ifs
  · exact le_rfl
  · exact h.sublist.count_le len

/-- How many symbols before this one have a word of the same length. -/
def symbolRank (symbol : ℕ) : ℕ := (lengths.take symbol).count (lengths.getD symbol 0)

/-- The word of a symbol as a number. -/
def codeOf (symbol : ℕ) : ℕ :=
  firstCode (lengthCount lengths) (lengths.getD symbol 0) + symbolRank lengths symbol

/-- The word of a symbol, its highest bit first. -/
def codeBits (symbol : ℕ) : List Bool :=
  (bitsOf (lengths.getD symbol 0) (codeOf lengths symbol)).reverse

/-- The symbols whose word has this length, in order. -/
def symbolsOf (len : ℕ) : List ℕ :=
  (List.range lengths.length).filter fun symbol => lengths.getD symbol 0 = len

/-- A further symbol comes last. -/
theorem symbolsOf_concat (l len : ℕ) :
    symbolsOf (lengths ++ [l]) len =
      symbolsOf lengths len ++ if l = len then [lengths.length] else [] := by
  have hfront : (range lengths.length).filter
      (fun symbol => (lengths ++ [l]).getD symbol 0 = len) = symbolsOf lengths len := by
    apply filter_congr
    intro symbol hmem
    rw [getD_append _ _ _ _ (mem_range.1 hmem)]
  rw [symbolsOf, length_append, length_singleton, range_succ, filter_append,
    hfront, filter_singleton]
  simp

/-- As many symbols as have the length. -/
theorem length_symbolsOf (len : ℕ) : (symbolsOf lengths len).length = lengths.count len := by
  induction lengths using List.reverseRecOn with
  | nil => rfl
  | append_singleton lengths l ih =>
    rw [symbolsOf_concat, length_append, ih, count_append]
    by_cases h : l = len
    · rw [if_pos h, h, count_singleton_self, length_singleton]
    · rw [if_neg h, count_singleton, if_neg (by simpa using h), length_nil]

/-- A symbol stands at its rank. -/
theorem symbolsOf_getElem?_symbolRank (h : symbol < lengths.length) :
    (symbolsOf lengths (lengths.getD symbol 0))[symbolRank lengths symbol]? = some symbol := by
  induction lengths using List.reverseRecOn with
  | nil => exact absurd h (Nat.not_lt_zero _)
  | append_singleton lengths l ih =>
    rw [length_append] at h
    rcases Nat.lt_succ_iff_lt_or_eq.1 h with hlt | rfl
    · have hrank : symbolRank (lengths ++ [l]) symbol = symbolRank lengths symbol := by
        rw [symbolRank, symbolRank, take_append_of_le_length hlt.le, getD_append _ _ _ _ hlt]
      have hplace := ih hlt
      have hinside := (List.getElem?_eq_some_iff.1 hplace).1
      rw [hrank, getD_append _ _ _ _ hlt, symbolsOf_concat, getElem?_append_left hinside, hplace]
    · have hlast : (lengths ++ [l]).getD lengths.length 0 = l := by simp
      have hrank : symbolRank (lengths ++ [l]) lengths.length = (symbolsOf lengths l).length := by
        rw [symbolRank, hlast, take_left, length_symbolsOf]
      rw [hlast, hrank, symbolsOf_concat, if_pos rfl, getElem?_append_right le_rfl,
        Nat.sub_self, getElem?_cons_zero]

/-- A rank is less than the count. -/
theorem symbolRank_lt (h : symbol < lengths.length) :
    symbolRank lengths symbol < lengths.count (lengths.getD symbol 0) := by
  rw [← length_symbolsOf]
  exact (List.getElem?_eq_some_iff.1 (symbolsOf_getElem?_symbolRank lengths h)).1

/-- A used symbol is one of the list. -/
theorem lt_length_of_getD_ne_zero (h : lengths.getD symbol 0 ≠ 0) : symbol < lengths.length := by
  by_contra hlong
  exact h (getD_eq_default _ _ (not_lt.1 hlong))

/-- A code is one of those of its length. -/
theorem codeOf_lt_endCode (h : lengths.getD symbol 0 ≠ 0) :
    codeOf lengths symbol < endCode (lengthCount lengths) (lengths.getD symbol 0) := by
  have hrank := symbolRank_lt lengths (lt_length_of_getD_ne_zero lengths h)
  rw [codeOf, endCode, lengthCount, if_neg h]
  omega

/-- The part of all strings of `longest` bits that begin with a word. -/
def kraftSum (longest : ℕ) : ℕ :=
  (lengths.map fun len => if len = 0 then 0 else 2 ^ (longest - len)).sum

/-- Every string of `longest` bits begins with a word. -/
def Complete (longest : ℕ) : Prop :=
  (∀ len ∈ lengths, len ≤ longest) ∧ kraftSum lengths longest = 2 ^ longest

instance (longest : ℕ) : Decidable (Complete lengths longest) := inferInstanceAs (Decidable (_ ∧ _))

variable {lengths} {longest : ℕ}

/-- The room taken up is the sum of Kraft. -/
theorem endCode_lengthCount (hle : ∀ len ∈ lengths, len ≤ longest) :
    endCode (lengthCount lengths) longest = kraftSum lengths longest := by
  induction lengths with
  | nil =>
    have hzero : ∀ len, endCode (lengthCount []) len = 0 := by
      intro len
      induction len with
      | zero => rfl
      | succ len ih => rw [endCode, firstCode_succ, ih]; rfl
    exact hzero longest
  | cons len lengths ih =>
    have hrest := ih fun l hl => hle l (mem_cons_of_mem _ hl)
    have hlen := hle len mem_cons_self
    rw [kraftSum, map_cons]
    change _ = _ + kraftSum lengths longest
    rw [← hrest]
    by_cases hzero : len = 0
    · have hcount : lengthCount (len :: lengths) = lengthCount lengths := by
        funext l
        unfold lengthCount
        split_ifs with hl
        · rfl
        · rw [count_cons_of_ne (by omega)]
      rw [hcount, if_pos hzero, zero_add]
    · have hcount : lengthCount (len :: lengths) =
          fun l => (if l = len then 1 else 0) + lengthCount lengths l := by
        funext l
        unfold lengthCount
        rw [count_cons]
        by_cases hl : l = 0
        · rw [if_pos hl, if_neg (by omega), if_pos hl]
        · rw [if_neg hl, if_neg hl, add_comm]
          congr 1
          simp only [beq_iff_eq]
          exact if_congr eq_comm rfl rfl
      rw [hcount, endCode_add, endCode_single, if_pos hlen, if_neg hzero]

/-- A complete code takes up all of the room. -/
theorem Complete.endCode_eq (h : Complete lengths longest) :
    endCode (lengthCount lengths) longest = 2 ^ longest := by
  rw [endCode_lengthCount h.1, h.2]

/-- A code is complete if it takes up all of the room. -/
theorem complete_iff (hle : ∀ len ∈ lengths, len ≤ longest) :
    Complete lengths longest ↔ endCode (lengthCount lengths) longest = 2 ^ longest := by
  rw [endCode_lengthCount hle]
  exact and_iff_right hle

/-- A code fits its length. -/
theorem codeOf_lt_two_pow (hroom : endCode (lengthCount lengths) longest ≤ 2 ^ longest)
    (hused : lengths.getD symbol 0 ≠ 0) (hle : lengths.getD symbol 0 ≤ longest) :
    codeOf lengths symbol < 2 ^ lengths.getD symbol 0 :=
  (codeOf_lt_endCode lengths hused).trans_le (endCode_le_two_pow _ hle hroom)

/-- The word of a symbol is found at its length. -/
theorem codeLength_codeBits (hroom : endCode (lengthCount lengths) longest ≤ 2 ^ longest)
    (hused : lengths.getD symbol 0 ≠ 0) (hle : lengths.getD symbol 0 ≤ longest) (more : List Bool) :
    codeLength (lengthCount lengths) longest (codeBits lengths symbol ++ more) =
      some (lengths.getD symbol 0) := by
  have hvalue := msbValue_bitsOf_reverse (codeOf_lt_two_pow hroom hused hle)
  have hlength : (codeBits lengths symbol).length = lengths.getD symbol 0 := by simp [codeBits]
  have hlast := codeOf_lt_endCode lengths hused
  have hfirst : firstCode (lengthCount lengths) (lengths.getD symbol 0) ≤ codeOf lengths symbol :=
    Nat.le_add_right _ _
  have hword := @codeLength_word (lengthCount lengths) longest (codeBits lengths symbol)
  rw [hlength, codeBits, hvalue] at hword
  exact hword ⟨Nat.pos_of_ne_zero hused, hle⟩ hfirst hlast more

/-- The word at the front is that of a symbol. -/
theorem exists_codeBits {bits : List Bool} {len : ℕ}
    (h : codeLength (lengthCount lengths) longest bits = some len) :
    ∃ symbol, lengths.getD symbol 0 ≠ 0 ∧ codeBits lengths symbol <+: bits := by
  obtain ⟨⟨hpos, -⟩, hinside, hlast, -⟩ := codeLength_eq_some_iff.1 h
  rw [endCode, lengthCount, if_neg (by omega), ← length_symbolsOf] at hlast
  obtain ⟨rank, hrank⟩ :=
    Nat.exists_eq_add_of_le (firstCode_le_of_codeLength (lengthCount_zero lengths) h)
  have hlt : rank < (symbolsOf lengths len).length := by omega
  obtain ⟨symbol, hsymbol⟩ : ∃ symbol, (symbolsOf lengths len)[rank]? = some symbol :=
    ⟨_, getElem?_eq_getElem hlt⟩
  obtain ⟨hmem, hlen⟩ := mem_filter.1 (mem_of_getElem? hsymbol)
  rw [decide_eq_true_iff] at hlen
  have hplace := symbolsOf_getElem?_symbolRank lengths (mem_range.1 hmem)
  rw [hlen, ← hsymbol] at hplace
  have hsame := (List.getElem?_inj hlt (nodup_range.filter _)).1 hplace.symm
  have hword : codeBits lengths symbol = bits.take len := by
    have hbits := bitsOf_lsbValue (bits.take len).reverse
    rw [length_reverse, length_take_of_le hinside, ← msbValue, hrank] at hbits
    rw [codeBits, codeOf, hlen, ← hsame, hbits, reverse_reverse]
  exact ⟨symbol, by omega, hword ▸ take_prefix len bits⟩

end

end Ipxe.Library
