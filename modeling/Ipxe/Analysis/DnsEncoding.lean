import Ipxe.Analysis.DnsNames

/-!
# Encoding names

The state of the encoder in the middle of a name is the label it is in; what it is left with is
the string split at the dots, with that label before the first piece.
-/

namespace Ipxe.Analysis

open Library Model Interface List

variable {string current data : Bytes} {c : UInt8}

/-- What the labels of a name are, from the middle of a label on. -/
def pieces (current string : Bytes) : List Bytes :=
  ((stripDot string).splitOn dot).modifyHead (current ++ ·)

theorem stripDot_cons (c : UInt8) (hstring : string ≠ []) :
    stripDot (c :: string) = c :: stripDot string := by
  obtain ⟨last, hlast⟩ := Option.isSome_iff_exists.1 (getLast?_isSome.2 hstring)
  have hcons : (c :: string).getLast? = some last := by
    rw [getLast?_cons, hlast]
    rfl
  rw [stripDot, stripDot, hcons, hlast, dropLast_cons_of_ne_nil hstring]
  split_ifs <;> rfl

theorem pieces_nil (current : Bytes) : pieces current [] = [current] := by
  simp [pieces, stripDot]

theorem pieces_dot (current : Bytes) : pieces current [dot] = [current] := by
  simp [pieces, stripDot]

theorem pieces_nil_left (string : Bytes) : pieces [] string = (stripDot string).splitOn dot :=
  congrFun modifyHead_id _

theorem pieces_dot_cons (current : Bytes) (hstring : string ≠ []) :
    pieces current (dot :: string) = current :: pieces [] string := by
  rw [pieces_nil_left, pieces, stripDot_cons dot hstring, List.splitOn,
    splitOnP_cons_eq_if_modifyHead]
  simp [List.splitOn]

theorem pieces_cons (current : Bytes) (hc : c ≠ dot) (string : Bytes) :
    pieces current (c :: string) = pieces (current ++ [c]) string := by
  have hstrip : stripDot (c :: string) = c :: stripDot string := by
    by_cases hstring : string = []
    · simp [hstring, stripDot, hc]
    · exact stripDot_cons c hstring
  rw [pieces, hstrip, List.splitOn, splitOnP_cons_eq_if_modifyHead]
  simp [hc, pieces, List.splitOn, Function.comp_def]

theorem pieces_eq_stringLabels (hstring : stripDot string ≠ []) :
    pieces [] string = stringLabels string := by
  rw [stringLabels, if_neg hstring, pieces_nil_left]

theorem exists_pieces (current string : Bytes) :
    ∃ more rest, pieces current string = (current ++ more) :: rest := by
  obtain ⟨more, rest, hsplit⟩ :=
    exists_cons_of_ne_nil (splitOnP_ne_nil (· == dot) (stripDot string))
  exact ⟨more, rest, by rw [pieces, List.splitOn, hsplit, modifyHead_cons]⟩

theorem length_pieces (current string : Bytes) :
    current.length + 1 ≤ ((pieces current string).flatMap encodeLabel).length := by
  obtain ⟨more, rest, hpieces⟩ := exists_pieces current string
  rw [hpieces, flatMap_cons, encodeLabel]
  simp

theorem set_behind {front : Bytes} {n : ℕ} (hn : front.length = n) (old c : UInt8)
    (rest : Bytes) : (front ++ old :: rest).set n c = front ++ c :: rest := by
  rw [set_append_right _ _ hn.le, hn, Nat.sub_self, set_cons_zero]

theorem length_dnsPut (data : Bytes) (dst : ℕ) (c : UInt8) (len : ℕ) :
    (dnsPut data dst c len).length = data.length := by
  rw [dnsPut]
  split_ifs
  · rw [length_set, length_set]
  · rfl

/-- A byte is put behind the label that the encoder is in. -/
theorem exists_dnsPut {position : ℕ} {before rest : Bytes} {head : UInt8}
    (hbefore : before.length = position) (hdata : data = before ++ head :: (current ++ rest))
    (hroom : position + current.length + 1 < data.length) :
    ∃ rest', ∀ c len, dnsPut data (position + current.length + 1) c len =
      (before ++ head :: (current ++ c :: rest')).set (position + current.length + 1 - len)
        (UInt8.ofNat len) := by
  have hlength : data.length = position + (1 + (current.length + rest.length)) := by
    rw [hdata, length_append, length_cons, length_append]
    omega
  obtain ⟨old, rest, rfl⟩ : ∃ old rest₁, rest = old :: rest₁ :=
    exists_cons_of_ne_nil (length_pos_iff.1 (by omega))
  have hfront : (before ++ head :: current).length = position + current.length + 1 := by
    rw [length_append, length_cons, hbefore]
    rfl
  have hcut (c : UInt8) (rest : Bytes) :
      before ++ head :: (current ++ c :: rest) = (before ++ head :: current) ++ c :: rest := by
    rw [append_assoc, cons_append]
  refine ⟨rest, fun c len => ?_⟩
  rw [dnsPut, if_pos hroom, hdata, hcut, hcut, set_behind hfront]

/-! ## Encoding -/

/-- What the encoder does with these labels, the first of which it is in: it comes to the end of
the last one, with the labels in the buffer if there is room for them, or it fails if one of
them is not valid. -/
structure Encodes (position : ℕ) (current data : Bytes) (labels : List Bytes)
    (result : Except Errno (ℕ × ℕ) × Bytes) : Prop where
  invalid : (¬∀ label ∈ labels, ValidLabel label) → result.1 = .error .einval
  valid : (∀ label ∈ labels, ValidLabel label) →
    ∃ dst len data', result = (.ok (dst, len), data') ∧ len ≠ 0 ∧
      dst + 1 = position + (labels.flatMap encodeLabel).length ∧
      ∀ before head rest, before.length = position →
        (current ≠ [] → head = UInt8.ofNat current.length) →
        data = before ++ head :: (current ++ rest) → dst + 1 ≤ data.length →
        ∃ rest', data' = before ++ (labels.flatMap encodeLabel ++ rest')

section

variable {position : ℕ} {labels : List Bytes} {result : Except Errno (ℕ × ℕ) × Bytes}

theorem encodes_fail {label : Bytes} (hmem : label ∈ labels) (hinvalid : ¬ValidLabel label) :
    Encodes position current data labels (.error .einval, data) :=
  ⟨fun _ => rfl, fun h => absurd (h label hmem) hinvalid⟩

theorem encodes_end (hcurrent : ValidLabel current) :
    Encodes position current data [current]
      (.ok (position + current.length, current.length), data) := by
  refine ⟨fun h => absurd (forall_mem_singleton.2 hcurrent) h, fun _ => ?_⟩
  refine ⟨_, _, _, rfl, (length_pos_iff.2 hcurrent.1).ne', ?_, ?_⟩
  · simp [encodeLabel]
    omega
  · rintro before head rest - hhead hdata -
    rw [hdata, hhead hcurrent.1]
    simp [encodeLabel]

theorem encodes_dot (hcurrent : ValidLabel current) (hlabels : labels ≠ [])
    (h : Encodes (position + current.length + 1) []
      (dnsPut data (position + current.length + 1) dot 0) labels result) :
    Encodes position current data (current :: labels) result := by
  refine ⟨fun hinvalid => h.invalid fun hrest => hinvalid ?_, fun hvalid => ?_⟩
  · exact forall_mem_cons.2 ⟨hcurrent, hrest⟩
  obtain ⟨dst, len, data', hresult, hlen, hdst, hbytes⟩ := h.valid (forall_mem_cons.1 hvalid).2
  have hsize : ((current :: labels).flatMap encodeLabel).length =
      current.length + 1 + (labels.flatMap encodeLabel).length := by
    rw [flatMap_cons, length_append, encodeLabel, length_cons]
  refine ⟨dst, len, data', hresult, hlen, by omega, ?_⟩
  intro before head rest hbefore hhead hdata hroom
  have hmore : 0 < (labels.flatMap encodeLabel).length := by
    obtain ⟨label, more, rfl⟩ := exists_cons_of_ne_nil hlabels
    simp [encodeLabel]
  obtain ⟨rest, hput⟩ := exists_dnsPut hbefore hdata (by omega)
  have hfront : (before ++ head :: current).length = position + current.length + 1 := by
    rw [length_append, length_cons, hbefore]
    rfl
  have hdot := hput dot 0
  rw [← cons_append, ← append_assoc, Nat.sub_zero, set_behind hfront] at hdot
  obtain ⟨rest', hdata'⟩ := hbytes (before ++ head :: current) 0 rest hfront
    (fun h => absurd rfl h) hdot (by rwa [length_dnsPut])
  rw [hdata', hhead hcurrent.1]
  simp [encodeLabel]

theorem encodes_byte (hsize : current.length + 2 ≤ (labels.flatMap encodeLabel).length)
    (h : Encodes position (current ++ [c])
      (dnsPut data (position + current.length + 1) c (current.length + 1)) labels result) :
    Encodes position current data labels result := by
  refine ⟨h.invalid, fun hvalid => ?_⟩
  obtain ⟨dst, len, data', hresult, hlen, hdst, hbytes⟩ := h.valid hvalid
  refine ⟨dst, len, data', hresult, hlen, hdst, ?_⟩
  intro before head rest hbefore hhead hdata hroom
  obtain ⟨rest, hput⟩ := exists_dnsPut hbefore hdata (by omega)
  have hindex : position + current.length + 1 - (current.length + 1) = position := by omega
  refine hbytes before (UInt8.ofNat (current.length + 1)) rest hbefore (fun _ => ?_) ?_
    (by rwa [length_dnsPut])
  · rw [length_append, length_singleton]
  · rw [hput, hindex, set_behind hbefore, append_assoc, singleton_append]

end

/-- **Encoding from the middle of a name on.** -/
theorem dnsEncodeLoop_spec (start : ℕ) (string : Bytes) :
    ∀ (current : Bytes) (position : ℕ) (data : Bytes), current.length ≤ 63 →
      start ≤ position → (current = [] → string ≠ [] ∧ start < position) →
      Encodes position current data (pieces current string)
        (dnsEncodeLoop start string (position + current.length) current.length data) := by
  induction string with
  | nil =>
    intro current position data hcurrent _ hmiddle
    rw [pieces_nil]
    exact encodes_end ⟨fun hnil => (hmiddle hnil).1 rfl, hcurrent⟩
  | cons c string ih =>
    intro current position data hcurrent hstart hmiddle
    rw [dnsEncodeLoop]
    by_cases hdot : c = dot
    · subst hdot
      rw [if_pos rfl]
      by_cases hnil : current = []
      · -- a label without a byte
        subst hnil
        have hmem : [] ∈ pieces [] (dot :: string) := by
          by_cases hlast : string = []
          · rw [hlast]
            exact mem_singleton.2 rfl
          · rw [pieces_dot_cons [] hlast]
            exact mem_cons_self ..
        have hmoved := (hmiddle rfl).2
        rw [if_pos ⟨rfl, by rw [length_nil]; omega⟩]
        exact encodes_fail hmem fun h => h.1 rfl
      have hlen : current.length ≠ 0 := (length_pos_iff.2 hnil).ne'
      rw [if_neg (fun h : _ ∧ _ => hlen h.1)]
      by_cases hlast : string = []
      · subst hlast
        rw [pieces_dot]
        exact encodes_end ⟨hnil, hcurrent⟩
      · rw [if_neg hlast, if_neg hlen, pieces_dot_cons current hlast]
        obtain ⟨more, rest, hpieces⟩ := exists_pieces [] string
        exact encodes_dot ⟨hnil, hcurrent⟩ (by rw [hpieces]; exact cons_ne_nil _ _)
          (ih [] (position + current.length + 1) _ (Nat.zero_le _) (by omega)
            fun _ => ⟨hlast, by omega⟩)
    · rw [if_neg hdot, pieces_cons current hdot]
      have hlength : (current ++ [c]).length = current.length + 1 := length_append
      by_cases hlong : dnsMaxLabelLen < current.length + 1
      · rw [if_pos hlong]
        obtain ⟨more, rest, hpieces⟩ := exists_pieces (current ++ [c]) string
        rw [hpieces]
        refine encodes_fail (mem_cons_self ..) fun h => ?_
        have hshort := h.2
        rw [length_append] at hshort
        exact absurd hlong (by rw [dnsMaxLabelLen]; omega)
      · rw [if_neg hlong]
        have hshort : current.length + 1 ≤ 63 := not_lt.1 hlong
        have hrest := ih (current ++ [c]) position
          (dnsPut data (position + current.length + 1) c (current.length + 1))
          (by rw [hlength]; exact hshort) hstart (fun h => absurd h (by simp))
        rw [hlength] at hrest
        have hsize := length_pieces (current ++ [c]) string
        rw [hlength] at hsize
        exact encodes_byte hsize hrest

theorem length_dnsEncodeLoop (start : ℕ) (string : Bytes) :
    ∀ (dst len : ℕ) (data : Bytes),
      (dnsEncodeLoop start string dst len data).2.length = data.length := by
  induction string with
  | nil => exact fun dst len data => rfl
  | cons c string ih =>
    intro dst len data
    rw [dnsEncodeLoop]
    split_ifs
    · rfl
    · rfl
    · rfl
    · rw [ih, length_dnsPut]
    · rfl
    · rw [ih, length_dnsPut]

theorem dnsEncode_root {string : Bytes} {name : DnsName}
    (hloop : dnsEncodeLoop name.offset string name.offset 0 name.data =
      (.ok (name.offset, 0), name.data)) :
    ∃ data', dnsEncode string name = (.ok 1, data') ∧ (name.offset + 1 ≤ name.data.length →
      ∃ before after, before.length = name.offset ∧ data' = before ++ ([0] ++ after)) := by
  refine ⟨name.data.set name.offset 0, ?_, fun hroom => ?_⟩
  · rw [dnsEncode, hloop]
    simp
  · refine ⟨name.data.take name.offset, name.data.drop (name.offset + 1),
      length_take_of_le (by omega), ?_⟩
    rw [set_eq_take_append_cons_drop, if_pos (show name.offset < name.data.length from hroom)]
    rfl

/-- **What the encoder makes of a string**, in a buffer with or without room for it. -/
theorem dnsEncode_spec (string : Bytes) (name : DnsName) :
    ((¬∀ label ∈ stringLabels string, ValidLabel label) →
      (dnsEncode string name).1 = .error .einval) ∧
    ((∀ label ∈ stringLabels string, ValidLabel label) →
      ∃ data', dnsEncode string name = (.ok (encodeLabels (stringLabels string)).length, data') ∧
        (name.offset + (encodeLabels (stringLabels string)).length ≤ name.data.length →
          ∃ before after, before.length = name.offset ∧
            data' = before ++ (encodeLabels (stringLabels string) ++ after))) := by
  cases string with
  | nil => exact ⟨fun h => absurd (by decide) h, fun _ => dnsEncode_root rfl⟩
  | cons c string =>
    by_cases hdot : c = dot
    · subst hdot
      by_cases hlast : string = []
      · subst hlast
        exact ⟨fun h => absurd (by decide) h, fun _ => dnsEncode_root (by simp [dnsEncodeLoop])⟩
      · -- an initial dot that does not end the string
        have hmem : [] ∈ stringLabels (dot :: string) := by
          rw [← pieces_eq_stringLabels (by rw [stripDot_cons dot hlast]; exact cons_ne_nil _ _),
            pieces_dot_cons [] hlast]
          exact mem_cons_self ..
        refine ⟨fun _ => ?_, fun h => absurd rfl (h [] hmem).1⟩
        simp [dnsEncode, dnsEncodeLoop, hlast]
    · have hstrip : stripDot (c :: string) ≠ [] := by
        by_cases hlast : string = []
        · simp [hlast, stripDot, hdot]
        · rw [stripDot_cons c hlast]
          exact cons_ne_nil _ _
      have hlabels : stringLabels (c :: string) = pieces [c] string := by
        rw [← pieces_eq_stringLabels hstrip, pieces_cons [] hdot]
        rfl
      have hloop : Encodes name.offset [] name.data (stringLabels (c :: string))
          (dnsEncodeLoop name.offset (c :: string) name.offset 0 name.data) := by
        rw [dnsEncodeLoop, if_neg hdot, if_neg (by decide), hlabels]
        exact encodes_byte (length_pieces [c] string)
          (dnsEncodeLoop_spec name.offset string [c] name.offset _ (by simp) le_rfl
            (fun h => absurd h (cons_ne_nil _ _)))
      have hkept := length_dnsEncodeLoop name.offset (c :: string) name.offset 0 name.data
      rw [dnsEncode]
      generalize dnsEncodeLoop name.offset (c :: string) name.offset 0 name.data = result
        at hloop hkept
      generalize stringLabels (c :: string) = labels at hloop
      refine ⟨fun hinvalid => ?_, fun hvalid => ?_⟩
      · obtain ⟨status, data'⟩ := result
        cases hloop.invalid hinvalid
        rfl
      · obtain ⟨dst, len, data', rfl, hlen, hdst, hbytes⟩ := hloop.valid hvalid
        have hsize : (encodeLabels labels).length = (labels.flatMap encodeLabel).length + 1 := by
          rw [encodeLabels, length_append, length_singleton]
        simp only [if_pos hlen]
        refine ⟨data'.set (dst + 1) 0, ?_, fun hroom => ?_⟩
        · congr 2
          omega
        · have hwithin : name.offset < name.data.length := by omega
          have hsplit : name.data = name.data.take name.offset ++
              name.data.get ⟨name.offset, hwithin⟩ :: ([] ++ name.data.drop (name.offset + 1)) := by
            rw [nil_append, get_eq_getElem, ← drop_eq_getElem_cons, take_append_drop]
          have hbefore : (name.data.take name.offset).length = name.offset :=
            length_take_of_le hwithin.le
          obtain ⟨rest, hdata'⟩ := hbytes _ _ _ hbefore (fun h => absurd rfl h) hsplit (by omega)
          have hlength : (name.data.take name.offset ++ labels.flatMap encodeLabel).length =
              dst + 1 := by
            rw [length_append, hbefore, hdst]
          rw [← append_assoc] at hdata'
          obtain ⟨old, rest, rfl⟩ : ∃ old rest₁, rest = old :: rest₁ := by
            refine exists_cons_of_ne_nil (length_pos_iff.1 ?_)
            have htotal := congrArg List.length hdata'
            rw [length_append] at htotal
            simp only [htotal] at hkept
            omega
          refine ⟨name.data.take name.offset, rest, hbefore, ?_⟩
          rw [hdata', set_behind hlength, encodeLabels]
          simp

theorem joinLabels_stringLabels (string : Bytes) :
    joinLabels (stringLabels string) = stripDot string := by
  rw [stringLabels]
  split_ifs with hroot
  · exact hroot.symm
  · exact intercalate_splitOn dot

/-- **Names are encoded exactly if their labels are valid, and decoded to the same string.**
The length does not depend on the buffer; what is written of a string that is too long is as
much as fits. -/
theorem dns_encode_decode (string : Bytes) :
    (∀ name, (dnsEncode string name).1 =
      if ∀ label ∈ stringLabels string, ValidLabel label
      then .ok (encodeLabels (stringLabels string)).length else .error .einval) ∧
    ∀ name n data, dnsEncode string name = (.ok n, data) → name.offset + n ≤ name.data.length →
      ∀ len, dnsDecode ⟨data, name.offset⟩ len =
        (.ok (stripDot string).length, fitted (stripDot string) len) := by
  constructor
  · intro name
    obtain ⟨hinvalid, hvalid⟩ := dnsEncode_spec string name
    split_ifs with hlabels
    · obtain ⟨data, hencode, -⟩ := hvalid hlabels
      rw [hencode]
    · exact hinvalid hlabels
  · intro name n data hencode hroom len
    obtain ⟨hinvalid, hvalid⟩ := dnsEncode_spec string name
    rw [hencode] at hinvalid hvalid
    have hlabels : ∀ label ∈ stringLabels string, ValidLabel label := by
      by_contra h
      cases hinvalid h
    obtain ⟨data', heq, hbytes⟩ := hvalid hlabels
    cases heq
    obtain ⟨before, after, hbefore, hdata⟩ := hbytes hroom
    have hname := nameAt_encodeLabels hlabels hdata
    rw [hbefore] at hname
    have hdecode := @dnsDecode_of_nameAt _ ⟨data, name.offset⟩ hname len
    rwa [joinLabels_stringLabels] at hdecode

/-- **A buffer that is filled by a name has no zero byte at its end.** -/
theorem dns_decode_not_terminated :
    dnsEncode [0x61, 0x62] ⟨[0, 0, 0, 0], 0⟩ = (.ok 4, [2, 0x61, 0x62, 0]) ∧
    dnsDecode ⟨[2, 0x61, 0x62, 0], 0⟩ 2 = (.ok 2, [0x61, 0x62]) ∧
    terminated [0x61, 0x62] 2 = [0x61, 0] := by
  decide +kernel

end Ipxe.Analysis
