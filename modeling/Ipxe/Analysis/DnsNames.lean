import Ipxe.Interface.DomainNames
import Ipxe.Library.RecordChains
import Ipxe.Library.TextBuffers
import Mathlib.Data.FinEnum

/-!
# Names in packets

The functions that read names go from label to label with the length of the buffer as their
limit; a name that ends comes to no label twice.
-/

namespace Ipxe.Analysis

open Library Model Interface List

variable {data : Bytes} {offset at_ : ℕ} {labels : List Bytes}

/-! ## Labels -/

theorem dnsIsCompressed_iff : ∀ byte : UInt8, dnsIsCompressed byte ↔ 64 ≤ byte.toNat := by
  decide +kernel

theorem dnsCompressedOffset_eq (high low : UInt8) :
    dnsCompressedOffset high low = high.toNat % 64 * 256 + low.toNat := by
  have hmask : (high &&& 0x3f).toNat = high.toNat % 64 := by
    exact Nat.and_two_pow_sub_one_eq_mod high.toNat 6
  rw [dnsCompressedOffset, hmask]

theorem encodeLabel_of_drop {label rest : Bytes} (hvalid : ValidLabel label)
    (hdrop : data.drop offset = encodeLabel label ++ rest) :
    ∃ byte, data[offset]? = some byte ∧ byte.toNat = label.length ∧
      offset + 1 + byte.toNat ≤ data.length ∧ (data.drop (offset + 1)).take byte.toNat = label := by
  have hbyte : (UInt8.ofNat label.length).toNat = label.length := by
    rw [UInt8.toNat_ofNat', Nat.mod_eq_of_lt (hvalid.2.trans_lt (by norm_num))]
  have hhead : data[offset]? = some (UInt8.ofNat label.length) := by
    rw [← head?_drop, hdrop]
    rfl
  have htail : data.drop (offset + 1) = label ++ rest := by
    rw [← tail_drop, hdrop]
    rfl
  refine ⟨_, hhead, hbyte, ?_, ?_⟩
  · have hlength := congrArg List.length hdrop
    rw [length_drop, encodeLabel, length_append, length_cons] at hlength
    omega
  · rw [htail, hbyte, take_left]

theorem drop_eq_encodeLabel {byte : UInt8} (hbyte : data[offset]? = some byte)
    (hpos : byte.toNat ≠ 0) (hplain : byte.toNat < 64)
    (hfits : offset + 1 + byte.toNat ≤ data.length) :
    ∃ rest, ValidLabel ((data.drop (offset + 1)).take byte.toNat) ∧
      ((data.drop (offset + 1)).take byte.toNat).length = byte.toNat ∧
      data.drop offset = encodeLabel ((data.drop (offset + 1)).take byte.toNat) ++ rest := by
  have hlength : ((data.drop (offset + 1)).take byte.toNat).length = byte.toNat := by
    rw [length_take_of_le]
    rw [length_drop]
    omega
  refine ⟨(data.drop (offset + 1)).drop byte.toNat, ⟨fun hnil => hpos ?_, by omega⟩, hlength, ?_⟩
  · rw [← hlength, hnil]
    rfl
  · rw [encodeLabel, hlength, UInt8.ofNat_toNat, cons_append, take_append_drop]
    obtain ⟨hlt, hget⟩ := List.getElem?_eq_some_iff.1 hbyte
    rw [← hget]
    exact drop_eq_getElem_cons hlt

theorem nameAt_plain_iff {byte : UInt8} (hbyte : data[offset]? = some byte)
    (hplain : byte.toNat < 64) :
    NameAt data offset labels ↔ offset + 1 + byte.toNat ≤ data.length ∧
      if byte.toNat = 0 then labels = []
      else ∃ rest, labels = (data.drop (offset + 1)).take byte.toNat :: rest ∧
        NameAt data (offset + (1 + byte.toNat)) rest := by
  obtain ⟨hlt, -⟩ := List.getElem?_eq_some_iff.1 hbyte
  constructor
  · intro hname
    cases hname with
    | root hroot =>
      cases hbyte.symm.trans hroot
      exact ⟨hlt, rfl⟩
    | label hvalid hdrop hrest =>
      obtain ⟨head, hhead, hlength, hfits, hlabel⟩ := encodeLabel_of_drop hvalid hdrop
      cases hbyte.symm.trans hhead
      have hpos : byte.toNat ≠ 0 := by
        rw [hlength]
        exact (length_pos_iff.2 hvalid.1).ne'
      rw [if_neg hpos, hlabel]
      rw [← hlength] at hrest
      exact ⟨hfits, _, rfl, hrest⟩
    | pointer hhigh hhead _ _ _ =>
      cases hbyte.symm.trans hhead
      omega
  · rintro ⟨hfits, hlabels⟩
    split_ifs at hlabels with hzero
    · subst hlabels
      refine .root ?_
      rw [hbyte, ← UInt8.toNat_inj.1 (show byte.toNat = (0 : UInt8).toNat from hzero)]
    · obtain ⟨rest, rfl, hrest⟩ := hlabels
      obtain ⟨more, hvalid, hlength, hdrop⟩ := drop_eq_encodeLabel hbyte hzero hplain hfits
      refine .label hvalid hdrop ?_
      rw [hlength]
      exact hrest

theorem nameAt_pointer_iff {high : UInt8} (hhigh : 64 ≤ high.toNat)
    (hbyte : data[offset]? = some high) :
    NameAt data offset labels ↔ ∃ low, data[offset + 1]? = some low ∧
      high.toNat % 64 * 256 + low.toNat < offset ∧
      NameAt data (high.toNat % 64 * 256 + low.toNat) labels := by
  constructor
  · intro hname
    cases hname with
    | root hroot =>
      cases hbyte.symm.trans hroot
      cases hhigh
    | label hvalid hdrop hrest =>
      obtain ⟨head, hhead, hlength, -⟩ := encodeLabel_of_drop hvalid hdrop
      cases hbyte.symm.trans hhead
      have hshort := hvalid.2
      omega
    | @pointer _ head low _ _ hhead hlow hback hrest =>
      cases hbyte.symm.trans hhead
      exact ⟨low, hlow, hback, hrest⟩
  · rintro ⟨low, hlow, hback, hrest⟩
    exact .pointer hhigh hbyte hlow hback hrest

theorem nameAt_valid (h : NameAt data offset labels) : ∀ label ∈ labels, ValidLabel label := by
  induction h with
  | root _ => exact fun _ hmem => absurd hmem (not_mem_nil)
  | label hvalid _ _ ih =>
    intro label hmem
    rcases mem_cons.1 hmem with rfl | hmem
    · exact hvalid
    · exact ih label hmem
  | pointer _ _ _ _ _ ih => exact ih

/-- What is known of the label that an offset leads to. -/
structure LabelAt (data : Bytes) (at_ : ℕ) : Prop where
  within : at_ < data.length
  plain : (data.getD at_ 0).toNat < 64
  fits : at_ + 1 + (data.getD at_ 0).toNat ≤ data.length

theorem length_label (hlabel : LabelAt data at_) :
    ((data.drop (at_ + 1)).take (data.getD at_ 0).toNat).length = (data.getD at_ 0).toNat := by
  have hfits := hlabel.fits
  rw [length_take_of_le]
  rw [length_drop]
  omega

theorem getElem?_of_labelAt (hlabel : LabelAt data at_) : data[at_]? = some (data.getD at_ 0) := by
  rw [getD_eq_getElem?_getD, getElem?_eq_getElem hlabel.within, Option.getD_some]

/-- **What `dns_label` does at an offset**: it stays at a label, goes on from the
target of a pointer, or fails. -/
theorem dnsLabel_cases (data : Bytes) (offset : ℕ) :
    (LabelAt data offset ∧ dnsLabel data offset = .ok offset) ∨
    (∃ high low, 64 ≤ high.toNat ∧ data[offset]? = some high ∧ data[offset + 1]? = some low ∧
      high.toNat % 64 * 256 + low.toNat < offset ∧
      dnsLabel data offset = dnsLabel data (high.toNat % 64 * 256 + low.toNat)) ∨
    (dnsLabel data offset = .error .einval ∧ ∀ labels, ¬NameAt data offset labels) := by
  rw [dnsLabel]
  by_cases hwithin : offset < data.length
  swap
  · refine .inr (.inr ⟨if_pos (by omega), fun labels hname => hwithin ?_⟩)
    cases hname with
    | root h => exact (List.getElem?_eq_some_iff.1 h).1
    | label hvalid hdrop _ =>
      obtain ⟨byte, h, -⟩ := encodeLabel_of_drop hvalid hdrop
      exact (List.getElem?_eq_some_iff.1 h).1
    | pointer _ h _ _ _ => exact (List.getElem?_eq_some_iff.1 h).1
  obtain ⟨byte, hbyte⟩ : ∃ byte, data[offset]? = some byte := ⟨_, getElem?_eq_getElem hwithin⟩
  have hgetD : data.getD offset 0 = byte := by rw [getD_eq_getElem?_getD, hbyte]; rfl
  rw [if_neg (by omega), hgetD]
  simp only [dnsIsCompressed_iff]
  by_cases hhigh : 64 ≤ byte.toNat
  · rw [if_pos hhigh]
    by_cases hlast : offset + 1 < data.length
    swap
    · refine .inr (.inr ⟨if_pos (by omega), fun labels hname => ?_⟩)
      obtain ⟨low, hlow, -⟩ := (nameAt_pointer_iff hhigh hbyte).1 hname
      exact hlast (List.getElem?_eq_some_iff.1 hlow).1
    obtain ⟨low, hlow⟩ : ∃ low, data[offset + 1]? = some low := ⟨_, getElem?_eq_getElem hlast⟩
    have hgetD' : data.getD (offset + 1) 0 = low := by
      rw [getD_eq_getElem?_getD, hlow]
      rfl
    rw [if_neg (by omega), hgetD', dnsCompressedOffset_eq]
    by_cases hback : byte.toNat % 64 * 256 + low.toNat < offset
    · exact .inr (.inl ⟨byte, low, hhigh, hbyte, hlow, hback, if_neg (by omega)⟩)
    · refine .inr (.inr ⟨if_pos (by omega), fun labels hname => ?_⟩)
      obtain ⟨low', hlow', hback', -⟩ := (nameAt_pointer_iff hhigh hbyte).1 hname
      cases hlow.symm.trans hlow'
      exact hback hback'
  · rw [if_neg hhigh]
    by_cases hfits : offset + 1 + byte.toNat ≤ data.length
    · refine .inl ⟨⟨hwithin, ?_, ?_⟩, if_neg (by omega)⟩
      · rw [hgetD]
        omega
      · rw [hgetD]
        exact hfits
    · refine .inr (.inr ⟨if_pos (by omega), fun labels hname => hfits ?_⟩)
      exact ((nameAt_plain_iff hbyte (by omega)).1 hname).1

/-! ## Names as chains -/

/-- The place of the label that an offset leads to. -/
def labelPlace (data : Bytes) (offset : ℕ) : Option ℕ := (dnsLabel data offset).toOption

/-- The label at a place, and the offset behind it. -/
def labelRecord (data : Bytes) (at_ : ℕ) : Option (Bytes × ℕ) :=
  if (data.getD at_ 0).toNat = 0 then none
  else some ((data.drop (at_ + 1)).take (data.getD at_ 0).toNat,
    at_ + (1 + (data.getD at_ 0).toNat))

/-- **`dns_label` finds a label from which the name goes on**, or fails where there
is no name. -/
theorem dnsLabel_spec (data : Bytes) (offset : ℕ) :
    (∃ at_, dnsLabel data offset = .ok at_ ∧ LabelAt data at_ ∧
      ∀ labels, NameAt data offset labels ↔ NameAt data at_ labels) ∨
    (dnsLabel data offset = .error .einval ∧ ∀ labels, ¬NameAt data offset labels) := by
  -- on the offset, which every pointer makes smaller
  induction offset using Nat.strong_induction_on with
  | _ offset ih =>
    rcases dnsLabel_cases data offset with
      ⟨hlabel, hok⟩ | ⟨high, low, hhigh, hbyte, hlow, hback, hnext⟩ | hfails
    · exact .inl ⟨offset, hok, hlabel, fun _ => Iff.rfl⟩
    · have hsame : ∀ labels, NameAt data offset labels ↔
          NameAt data (high.toNat % 64 * 256 + low.toNat) labels := by
        intro labels
        rw [nameAt_pointer_iff hhigh hbyte]
        constructor
        · rintro ⟨low', hlow', -, hname⟩
          cases hlow.symm.trans hlow'
          exact hname
        · exact fun hname => ⟨low, hlow, hback, hname⟩
      rw [hnext]
      rcases ih _ hback with ⟨at_, hok, hlabel, hiff⟩ | ⟨herror, hnone⟩
      · exact .inl ⟨at_, hok, hlabel, fun labels => (hsame labels).trans (hiff labels)⟩
      · exact .inr ⟨herror, fun labels hname => hnone labels ((hsame labels).1 hname)⟩
    · exact .inr hfails

theorem labelPlace_eq_some : labelPlace data offset = some at_ ↔ dnsLabel data offset = .ok at_ := by
  rw [labelPlace]
  cases dnsLabel data offset with
  | error rc => exact ⟨(nomatch ·), (nomatch ·)⟩
  | ok found =>
    exact ⟨fun h => congrArg Except.ok (Option.some.inj h), fun h => by cases h; rfl⟩

theorem labelAt_of_dnsLabel (h : dnsLabel data offset = .ok at_) :
    LabelAt data at_ ∧ ∀ labels, NameAt data offset labels ↔ NameAt data at_ labels := by
  rcases dnsLabel_spec data offset with ⟨found, hok, hlabel, hiff⟩ | ⟨herror, -⟩
  · cases h.symm.trans hok
    exact ⟨hlabel, hiff⟩
  · cases h.symm.trans herror

theorem nameAt_iff_of_labelAt (hlabel : LabelAt data at_) :
    NameAt data at_ labels ↔
      (labelRecord data at_ = none ∧ labels = []) ∨
      ∃ label after rest, labelRecord data at_ = some (label, after) ∧ labels = label :: rest ∧
        NameAt data after rest := by
  rw [nameAt_plain_iff (getElem?_of_labelAt hlabel) hlabel.plain, labelRecord]
  have hfits := hlabel.fits
  split_ifs with hzero
  · simp only [hfits, false_and, exists_false, or_false]
  · simp only [hfits, true_and, false_and, false_or, Option.some.injEq, Prod.mk.injEq]
    constructor
    · rintro ⟨rest, rfl, hrest⟩
      exact ⟨_, _, rest, ⟨rfl, rfl⟩, rfl, hrest⟩
    · rintro ⟨_, _, rest, ⟨rfl, rfl⟩, rfl, hrest⟩
      exact ⟨rest, rfl, hrest⟩

theorem nameAt_iff_place : NameAt data offset labels ↔ ∃ at_, labelPlace data offset = some at_ ∧
    ((labelRecord data at_ = none ∧ labels = []) ∨
      ∃ label after rest, labelRecord data at_ = some (label, after) ∧ labels = label :: rest ∧
        NameAt data after rest) := by
  rcases dnsLabel_spec data offset with ⟨at_, hok, hlabel, hiff⟩ | ⟨herror, hnone⟩
  · rw [hiff, nameAt_iff_of_labelAt hlabel]
    constructor
    · exact fun h => ⟨at_, labelPlace_eq_some.2 hok, h⟩
    · rintro ⟨other, hplace, h⟩
      cases hok.symm.trans (labelPlace_eq_some.1 hplace)
      exact h
  · refine ⟨fun hname => absurd hname (hnone _), ?_⟩
    rintro ⟨at_, hplace, -⟩
    cases herror.symm.trans (labelPlace_eq_some.1 hplace)

/-- **The names in a buffer are its chains of labels.** -/
theorem chain_iff_nameAt :
    Chain (labelPlace data) (labelRecord data) offset labels ↔ NameAt data offset labels := by
  constructor
  · intro hchain
    induction hchain with
    | last hplace hrecord => exact nameAt_iff_place.2 ⟨_, hplace, .inl ⟨hrecord, rfl⟩⟩
    | next hplace hrecord _ ih =>
      exact nameAt_iff_place.2 ⟨_, hplace, .inr ⟨_, _, _, hrecord, rfl, ih⟩⟩
  · -- on the labels; pointers are in the place of the first one
    induction labels generalizing offset with
    | nil =>
      intro hname
      obtain ⟨at_, hplace, ⟨hrecord, -⟩ | ⟨_, _, _, -, hcons, -⟩⟩ := nameAt_iff_place.1 hname
      · exact .last hplace hrecord
      · cases hcons
    | cons label labels ih =>
      intro hname
      obtain ⟨at_, hplace, ⟨-, hnil⟩ | ⟨_, _, _, hrecord, hcons, hrest⟩⟩ := nameAt_iff_place.1 hname
      · cases hnil
      · cases hcons
        exact .next hplace hrecord (ih hrest)

/-- The labels of the name at an offset, if there is one. -/
def nameLabels (name : DnsName) : Option (List Bytes) :=
  followChain (labelPlace name.data) (labelRecord name.data) name.data.length name.offset

/-- **The limit is generous**: every name is read within it. -/
theorem nameLabels_eq_some {name : DnsName} :
    nameLabels name = some labels ↔ NameAt name.data name.offset labels := by
  rw [nameLabels, followChain_size, chain_iff_nameAt]
  intro position at_ hplace
  exact (labelAt_of_dnsLabel (labelPlace_eq_some.1 hplace)).1.within

theorem nameAt_unique {labels' : List Bytes} (h : NameAt data offset labels)
    (h' : NameAt data offset labels') : labels = labels' :=
  (chain_iff_nameAt.2 h).unique (chain_iff_nameAt.2 h')

theorem followChain_succ (data : Bytes) (limit offset : ℕ) :
    (∃ at_, dnsLabel data offset = .ok at_ ∧ LabelAt data at_ ∧
      followChain (labelPlace data) (labelRecord data) (limit + 1) offset =
        if (data.getD at_ 0).toNat = 0 then some []
        else (followChain (labelPlace data) (labelRecord data) limit
          (at_ + (1 + (data.getD at_ 0).toNat))).map
            ((data.drop (at_ + 1)).take (data.getD at_ 0).toNat :: ·)) ∨
    (dnsLabel data offset = .error .einval ∧
      followChain (labelPlace data) (labelRecord data) (limit + 1) offset = none) := by
  rcases dnsLabel_spec data offset with ⟨at_, hok, hlabel, -⟩ | ⟨herror, -⟩
  · refine .inl ⟨at_, hok, hlabel, ?_⟩
    rw [followChain, labelPlace_eq_some.2 hok]
    simp only [labelRecord]
    split_ifs <;> rfl
  · refine .inr ⟨herror, ?_⟩
    rw [followChain, labelPlace, herror]
    rfl

/-- Labels behind a string, with dots between. -/
def joinFrom : Bytes → List Bytes → Bytes
  | string, [] => string
  | string, label :: labels =>
    joinFrom ((if string = [] then [] else string ++ [dot]) ++ label) labels

theorem joinFrom_ne_nil {string : Bytes} (hstring : string ≠ []) (labels : List Bytes) :
    joinFrom string labels = string ++ labels.flatMap (dot :: ·) := by
  induction labels generalizing string with
  | nil => rw [joinFrom, flatMap_nil, append_nil]
  | cons label labels ih =>
    rw [joinFrom, if_neg hstring, ih (by simp)]
    simp

theorem joinLabels_cons (label : Bytes) (labels : List Bytes) :
    joinLabels (label :: labels) = label ++ labels.flatMap (dot :: ·) := by
  induction labels generalizing label with
  | nil => simp [joinLabels, List.intercalate]
  | cons next labels ih =>
    rw [joinLabels, intercalate_cons_cons, ← joinLabels, ih]
    simp

theorem joinFrom_nil (hvalid : ∀ label ∈ labels, label ≠ []) :
    joinFrom [] labels = joinLabels labels := by
  cases labels with
  | nil => rfl
  | cons label labels =>
    rw [joinFrom, if_pos rfl, nil_append, joinLabels_cons,
      joinFrom_ne_nil (hvalid label (mem_cons_self ..))]

theorem take_append_byte (string : Bytes) (byte : UInt8) (len : ℕ) :
    (if string.length < len then string.take len ++ [byte] else string.take len) =
      (string ++ [byte]).take len := by
  split_ifs with hroom
  · rw [take_of_length_le hroom.le, take_of_length_le (by simp; omega)]
  · rw [take_append_of_le_length (by omega)]

/-- **Decoding from any label on**, behind the string of the labels before. -/
theorem dnsDecodeLoop_spec (data : Bytes) (len limit : ℕ) :
    ∀ (offset : ℕ) (string : Bytes),
      (∃ labels,
        followChain (labelPlace data) (labelRecord data) limit offset = some labels ∧
        dnsDecodeLoop data len limit offset string.length (string.take len) =
          (.ok (joinFrom string labels).length, fitted (joinFrom string labels) len)) ∨
      (followChain (labelPlace data) (labelRecord data) limit offset = none ∧
        (dnsDecodeLoop data len limit offset string.length (string.take len)).1 =
          .error .einval) := by
  induction limit with
  | zero => exact fun offset string => .inr ⟨rfl, rfl⟩
  | succ limit ih =>
    intro offset string
    rcases followChain_succ data limit offset with
      ⟨at_, hok, hlabelAt, hfollow⟩ | ⟨herror, hfollow⟩
    · rw [dnsDecodeLoop, hok, hfollow]
      simp only
      by_cases hroot : (data.getD at_ 0).toNat = 0
      · rw [if_pos hroot, if_pos hroot, take_append_byte]
        exact .inl ⟨[], rfl, rfl⟩
      · rw [if_neg hroot, if_neg hroot]
        obtain ⟨label, hlabel⟩ : ∃ label,
          label = (data.drop (at_ + 1)).take (data.getD at_ 0).toNat := ⟨_, rfl⟩
        obtain ⟨dotted, hdotted⟩ : ∃ dotted, dotted = if string = [] then []
          else string ++ [dot] := ⟨_, rfl⟩
        have houtput : (if string.length ≠ 0 ∧ string.length < len then string.take len ++ [dot]
            else string.take len) = dotted.take len := by
          rw [hdotted]
          by_cases hnil : string = []
          · simp [hnil]
          · rw [if_neg hnil, ← take_append_byte]
            simp [hnil]
        have hdecoded : (if string.length ≠ 0 then string.length + 1 else string.length) =
            dotted.length := by
          rw [hdotted]
          by_cases hnil : string = []
          · simp [hnil]
          · simp [hnil]
        have hroom : (if dotted.length < len then len - dotted.length else 0) =
            len - dotted.length := by
          split_ifs <;> omega
        have hcopied : dotted.take len ++ (data.drop (at_ + 1)).take
            (min (len - dotted.length) (data.getD at_ 0).toNat) = (dotted ++ label).take len := by
          rw [hlabel, take_append, take_take]
        have hlength : dotted.length + (data.getD at_ 0).toNat = (dotted ++ label).length := by
          rw [length_append, hlabel, length_label hlabelAt]
        rw [houtput, hdecoded, hroom, hcopied, hlength, ← hlabel]
        rcases ih (at_ + (1 + (data.getD at_ 0).toNat)) (dotted ++ label) with
          ⟨labels, hrest, hloop⟩ | ⟨hrest, hloop⟩
        · refine .inl ⟨label :: labels, by rw [hrest]; rfl, ?_⟩
          rw [hloop, joinFrom, ← hdotted]
        · exact .inr ⟨by rw [hrest]; rfl, hloop⟩
    · refine .inr ⟨hfollow, ?_⟩
      rw [dnsDecodeLoop, herror]

/-- **A name is decoded to its string, and nothing else is decoded.** -/
theorem dnsDecode_spec (name : DnsName) (len : ℕ) :
    (∃ labels, NameAt name.data name.offset labels ∧
      dnsDecode name len = (.ok (joinLabels labels).length, fitted (joinLabels labels) len)) ∨
    ((∀ labels, ¬NameAt name.data name.offset labels) ∧
      (dnsDecode name len).1 = .error .einval) := by
  have hspec := dnsDecodeLoop_spec name.data len name.data.length name.offset []
  rw [take_nil, length_nil] at hspec
  rcases hspec with ⟨labels, hfollow, hloop⟩ | ⟨hfollow, hloop⟩
  · have hname := nameLabels_eq_some.1 hfollow
    refine .inl ⟨labels, hname, ?_⟩
    rw [joinFrom_nil fun label hlabel => (nameAt_valid hname label hlabel).1] at hloop
    exact hloop
  · refine .inr ⟨fun labels hname => ?_, hloop⟩
    cases (nameLabels_eq_some.2 hname).symm.trans hfollow

theorem dnsDecode_of_nameAt {name : DnsName} (hname : NameAt name.data name.offset labels)
    (len : ℕ) :
    dnsDecode name len = (.ok (joinLabels labels).length, fitted (joinLabels labels) len) := by
  rcases dnsDecode_spec name len with ⟨labels', hname', hdecode⟩ | ⟨hnone, -⟩
  · rw [nameAt_unique hname hname', hdecode]
  · exact absurd hname (hnone labels)

theorem dnsCopyBytes_eq_setFrom (data : Bytes) (offset : ℕ) (bytes : Bytes) :
    dnsCopyBytes data offset bytes = setFrom data offset bytes := by
  have hroom (offset len : ℕ) : (if offset < len then len - offset else 0) = len - offset := by
    split_ifs <;> omega
  simp only [dnsCopyBytes, hroom]
  induction bytes generalizing data offset with
  | nil => simp [setFrom]
  | cons byte bytes ih =>
    rw [setFrom, ← ih]
    by_cases hwithin : offset < data.length
    · obtain ⟨before, old, rest, rfl, rfl⟩ :
          ∃ before old rest, data = before ++ old :: rest ∧ before.length = offset :=
        ⟨_, _, _, (take_append_drop offset data).symm.trans
          (congrArg _ (drop_eq_getElem_cons hwithin)), length_take_of_le hwithin.le⟩
      have hrest : before.length + (rest.length + 1) - (before.length + 1) = rest.length := by omega
      simp [hrest, take_length_add_append, add_assoc, drop_length_add_append, add_comm 1]
    · rw [not_lt] at hwithin
      simp [hwithin, set_eq_of_length_le, Nat.sub_eq_zero_of_le, Nat.le_succ_of_le,
        take_of_length_le, drop_eq_nil_of_le]

theorem dnsCopyBytes_append (data : Bytes) (offset : ℕ) (first second : Bytes) :
    dnsCopyBytes (dnsCopyBytes data offset first) (offset + first.length) second =
      dnsCopyBytes data offset (first ++ second) := by
  simp only [dnsCopyBytes_eq_setFrom, setFrom_append]

theorem dnsCopyBytes_of_fits {bytes : Bytes} (hfits : offset + bytes.length ≤ data.length) :
    dnsCopyBytes data offset bytes =
      data.take offset ++ (bytes ++ data.drop (offset + bytes.length)) := by
  have hlen : min (if offset < data.length then data.length - offset else 0) bytes.length =
      bytes.length := by
    split_ifs <;> omega
  rw [dnsCopyBytes]
  simp only [hlen]
  rw [take_length, append_assoc]

theorem dnsCopyLoop_spec (src : Bytes) (limit : ℕ) :
    ∀ (srcOffset dstOffset : ℕ) (dst : Bytes),
      (∃ labels,
        followChain (labelPlace src) (labelRecord src) limit srcOffset = some labels ∧
        dnsCopyLoop src limit srcOffset dstOffset dst =
          (.ok (dstOffset + (encodeLabels labels).length),
            dnsCopyBytes dst dstOffset (encodeLabels labels))) ∨
      (followChain (labelPlace src) (labelRecord src) limit srcOffset = none ∧
        (dnsCopyLoop src limit srcOffset dstOffset dst).1 = .error .einval) := by
  induction limit with
  | zero => exact fun srcOffset dstOffset dst => .inr ⟨rfl, rfl⟩
  | succ limit ih =>
    intro srcOffset dstOffset dst
    rcases followChain_succ src limit srcOffset with
      ⟨at_, hok, hlabelAt, hfollow⟩ | ⟨herror, hfollow⟩
    · have hbyte := getElem?_of_labelAt hlabelAt
      rw [dnsCopyLoop, hok, hfollow]
      simp only
      by_cases hroot : (src.getD at_ 0).toNat = 0
      · have hzero : src.getD at_ 0 = 0 := UInt8.toNat_inj.1 hroot
        have hbytes : (src.drop at_).take 1 = [0] := by
          rw [take_one, head?_drop, hbyte, hzero]
          rfl
        rw [if_pos hroot, hroot, hbytes]
        exact .inl ⟨[], rfl, rfl⟩
      · obtain ⟨rest, -, hlength, hdrop⟩ :=
          drop_eq_encodeLabel hbyte hroot hlabelAt.plain hlabelAt.fits
        rw [if_neg hroot, if_neg hroot]
        generalize (src.drop (at_ + 1)).take (src.getD at_ 0).toNat = label at hlength hdrop ⊢
        have hencoded : (encodeLabel label).length = 1 + (src.getD at_ 0).toNat := by
          rw [encodeLabel, length_cons, hlength, add_comm]
        have hbytes : (src.drop at_).take (1 + (src.getD at_ 0).toNat) = encodeLabel label := by
          rw [hdrop, ← hencoded, take_left]
        rw [hbytes]
        rcases ih (at_ + (1 + (src.getD at_ 0).toNat))
          (dstOffset + (1 + (src.getD at_ 0).toNat))
          (dnsCopyBytes dst dstOffset (encodeLabel label)) with
          ⟨labels, hrest, hloop⟩ | ⟨hrest, hloop⟩
        · have hcons : encodeLabels (label :: labels) = encodeLabel label ++ encodeLabels labels := by
            rw [encodeLabels, flatMap_cons, append_assoc]
            rfl
          refine .inl ⟨label :: labels, by rw [hrest]; rfl, ?_⟩
          rw [hloop, ← hencoded, dnsCopyBytes_append, hcons, length_append, add_assoc]
        · exact .inr ⟨by rw [hrest]; rfl, hloop⟩
    · refine .inr ⟨hfollow, ?_⟩
      rw [dnsCopyLoop, herror]

/-- **A name is copied to its encoding without pointers, and nothing else is.** -/
theorem dnsCopy_spec (src dst : DnsName) :
    (∃ labels, NameAt src.data src.offset labels ∧
      dnsCopy src dst = (.ok (encodeLabels labels).length,
        dnsCopyBytes dst.data dst.offset (encodeLabels labels))) ∨
    ((∀ labels, ¬NameAt src.data src.offset labels) ∧ (dnsCopy src dst).1 = .error .einval) := by
  rw [dnsCopy]
  rcases dnsCopyLoop_spec src.data src.data.length src.offset dst.offset dst.data with
    ⟨labels, hfollow, hloop⟩ | ⟨hfollow, hloop⟩
  · refine .inl ⟨labels, nameLabels_eq_some.1 hfollow, ?_⟩
    rw [hloop]
    simp
  · refine .inr ⟨fun labels hname => ?_, ?_⟩
    · cases (nameLabels_eq_some.2 hname).symm.trans hfollow
    · generalize dnsCopyLoop src.data src.data.length src.offset dst.offset dst.data = result at hloop
      obtain ⟨status, copied⟩ := result
      cases hloop
      rfl

theorem nameAt_encodeLabels {before after : Bytes} (hvalid : ∀ label ∈ labels, ValidLabel label)
    (hdata : data = before ++ (encodeLabels labels ++ after)) :
    NameAt data before.length labels := by
  induction labels generalizing before with
  | nil =>
    refine .root ?_
    rw [hdata, getElem?_append_right le_rfl, Nat.sub_self]
    rfl
  | cons label labels ih =>
    have hhere := hvalid label (mem_cons_self ..)
    have hsplit : encodeLabels (label :: labels) ++ after =
        encodeLabel label ++ (encodeLabels labels ++ after) := by
      simp [encodeLabels]
    rw [hsplit] at hdata
    refine @NameAt.label _ _ label (encodeLabels labels ++ after) labels hhere ?_ ?_
    · rw [hdata, drop_left]
    · have hrest := @ih (before ++ encodeLabel label)
        (fun label hmem => hvalid label (mem_cons_of_mem _ hmem))
        (by rw [hdata, append_assoc])
      rw [length_append, encodeLabel, length_cons, add_comm label.length] at hrest
      exact hrest

end Ipxe.Analysis
