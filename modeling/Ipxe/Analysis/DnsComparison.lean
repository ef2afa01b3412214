import Ipxe.Analysis.DnsNames

/-!
# Comparing and skipping names

Names are compared label by label, without regard to the case of letters.  A name is skipped no
further than to its pointer, even one that has no end.
-/

namespace Ipxe.Analysis

open Library Model Interface List Option

variable {data : Bytes} {offset : ℕ} {labels labels' : List Bytes}

/-! ## Comparison -/

/-- The same labels, without regard to case. -/
def SameLabels (labels labels' : List Bytes) : Prop :=
  labels.map (List.map tolower) = labels'.map (List.map tolower)

theorem sameLabels_cons {label label' : Bytes} :
    SameLabels (label :: labels) (label' :: labels') ↔
      label.map tolower = label'.map tolower ∧ SameLabels labels labels' := by
  rw [SameLabels, map_cons, map_cons, List.cons.injEq]
  rfl

theorem length_of_sameLabels (h : SameLabels labels labels') : labels.length = labels'.length := by
  have hlength := congrArg List.length h
  rwa [length_map, length_map] at hlength

theorem dnsCompareLoop_eq_ok_iff (first second : Bytes) (limit : ℕ) :
    ∀ firstOffset secondOffset : ℕ,
      dnsCompareLoop first second limit firstOffset secondOffset = .ok () ↔
        ∃ labels labels',
          followChain (labelPlace first) (labelRecord first) limit firstOffset = some labels ∧
          followChain (labelPlace second) (labelRecord second) limit secondOffset = some labels' ∧
          SameLabels labels labels' := by
  induction limit with
  | zero =>
    intro firstOffset secondOffset
    simp [dnsCompareLoop, followChain]
  | succ limit ih =>
    intro firstOffset secondOffset
    rw [dnsCompareLoop]
    rcases followChain_succ first limit firstOffset with
      ⟨at₁, hok₁, hlabel₁, hfollow₁⟩ | ⟨herror, hfollow⟩
    swap
    · simp [herror, hfollow]
    rcases followChain_succ second limit secondOffset with
      ⟨at₂, hok₂, hlabel₂, hfollow₂⟩ | ⟨herror, hfollow⟩
    swap
    · simp [hok₁, herror, hfollow]
    rw [hok₁, hok₂, hfollow₁, hfollow₂]
    have hlength₁ := length_label hlabel₁
    have hlength₂ := length_label hlabel₂
    simp only
    generalize (first.getD at₁ 0).toNat = len₁ at hlength₁ ⊢
    generalize (second.getD at₂ 0).toNat = len₂ at hlength₂ ⊢
    by_cases hlen : len₁ = len₂
    swap
    · -- labels of different lengths, or a root and a label
      rw [if_pos hlen]
      refine ⟨fun h => (by cases h), ?_⟩
      rintro ⟨labels, labels', h₁, h₂, hsame⟩
      have hcount := length_of_sameLabels hsame
      split_ifs at h₁ h₂ with hzero₁ hzero₂
      · exact absurd (hzero₁.trans hzero₂.symm) hlen
      · cases h₁
        obtain ⟨rest, -, rfl⟩ := map_eq_some_iff.1 h₂
        cases hcount
      · cases h₂
        obtain ⟨rest, -, rfl⟩ := map_eq_some_iff.1 h₁
        cases hcount
      · obtain ⟨rest₁, -, rfl⟩ := map_eq_some_iff.1 h₁
        obtain ⟨rest₂, -, rfl⟩ := map_eq_some_iff.1 h₂
        have hlabels := congrArg List.length (sameLabels_cons.1 hsame).1
        rw [length_map, length_map, hlength₁, hlength₂] at hlabels
        exact absurd hlabels hlen
    subst hlen
    rw [if_neg (not_not.2 rfl)]
    by_cases hzero : len₁ = 0
    · rw [if_pos hzero, if_pos hzero, if_pos hzero]
      exact ⟨fun _ => ⟨[], [], rfl, rfl, rfl⟩, fun _ => rfl⟩
    rw [if_neg hzero, if_neg hzero, if_neg hzero]
    generalize (first.drop (at₁ + 1)).take len₁ = label₁
    generalize (second.drop (at₂ + 1)).take len₁ = label₂
    by_cases hlabels : label₁.map tolower = label₂.map tolower
    · rw [if_neg (not_not.2 hlabels), ih]
      constructor
      · rintro ⟨rest₁, rest₂, h₁, h₂, hsame⟩
        refine ⟨label₁ :: rest₁, label₂ :: rest₂, by rw [h₁]; rfl, by rw [h₂]; rfl, ?_⟩
        exact sameLabels_cons.2 ⟨hlabels, hsame⟩
      · rintro ⟨labels, labels', h₁, h₂, hsame⟩
        obtain ⟨rest₁, hrest₁, rfl⟩ := map_eq_some_iff.1 h₁
        obtain ⟨rest₂, hrest₂, rfl⟩ := map_eq_some_iff.1 h₂
        exact ⟨rest₁, rest₂, hrest₁, hrest₂, (sameLabels_cons.1 hsame).2⟩
    · rw [if_pos hlabels]
      refine ⟨fun h => (by cases h), ?_⟩
      rintro ⟨labels, labels', h₁, h₂, hsame⟩
      obtain ⟨rest₁, -, rfl⟩ := map_eq_some_iff.1 h₁
      obtain ⟨rest₂, -, rfl⟩ := map_eq_some_iff.1 h₂
      exact absurd (sameLabels_cons.1 hsame).1 hlabels

/-- **Two names are found the same exactly if both have the same labels.** -/
theorem dnsCompare_eq_ok_iff (first second : DnsName) :
    dnsCompare first second = .ok () ↔
      ∃ labels labels', NameAt first.data first.offset labels ∧
        NameAt second.data second.offset labels' ∧ SameLabels labels labels' := by
  rw [dnsCompare, dnsCompareLoop_eq_ok_iff]
  constructor
  · rintro ⟨labels, labels', h₁, h₂, hsame⟩
    exact ⟨labels, labels', nameLabels_eq_some.1 h₁,
      chain_iff_nameAt.1 (followChain_eq_some_iff.1 h₂).1, hsame⟩
  · rintro ⟨labels, labels', h₁, h₂, hsame⟩
    have hfollow := nameLabels_eq_some.2 h₁
    have hlimit := (followChain_eq_some_iff.1 hfollow).2
    rw [length_of_sameLabels hsame] at hlimit
    exact ⟨labels, labels', hfollow,
      followChain_eq_some_iff.2 ⟨chain_iff_nameAt.2 h₂, hlimit⟩, hsame⟩

/-- **The names that are found the same form classes**, although only the buffer of the first name
limits how many labels are compared.
[net/udp/dns.c:267-312] -/
theorem dns_compare_equivalence :
    Equivalence fun first second : { name : DnsName // ∃ labels, NameAt name.data name.offset labels } =>
      dnsCompare first.1 second.1 = .ok () := by
  simp only [dnsCompare_eq_ok_iff]
  refine ⟨fun ⟨_, labels, hname⟩ => ⟨labels, labels, hname, hname, rfl⟩, ?_, ?_⟩
  · rintro _ _ ⟨labels, labels', hfirst, hsecond, hsame⟩
    exact ⟨labels', labels, hsecond, hfirst, hsame.symm⟩
  · rintro _ _ _ ⟨labels, _, hfirst, hsecond, hsame⟩ ⟨_, labels', hsecond', hthird, hsame'⟩
    cases nameAt_unique hsecond hsecond'
    exact ⟨labels, labels', hfirst, hthird, hsame.trans hsame'⟩

theorem tolower_eq_dot : ∀ c : UInt8, tolower c = dot ↔ c = dot := by
  decide +kernel

theorem map_tolower_joinLabels (labels : List Bytes) :
    (joinLabels labels).map tolower = joinLabels (labels.map (List.map tolower)) := by
  have hdot : tolower dot = dot := rfl
  cases labels with
  | nil => rfl
  | cons label labels =>
    rw [map_cons, joinLabels_cons, joinLabels_cons, map_append, map_flatMap, flatMap_map]
    simp [hdot]

theorem joinLabels_injective (hdots : ∀ label ∈ labels, dot ∉ label ∧ label ≠ [])
    (hdots' : ∀ label ∈ labels', dot ∉ label ∧ label ≠ [])
    (h : joinLabels labels = joinLabels labels') : labels = labels' := by
  cases labels with
  | nil =>
    cases labels' with
    | nil => rfl
    | cons label labels' =>
      rw [joinLabels_cons] at h
      exact absurd (append_eq_nil_iff.1 h.symm).1 (hdots' _ mem_cons_self).2
  | cons label labels =>
    cases labels' with
    | nil =>
      rw [joinLabels_cons] at h
      exact absurd (append_eq_nil_iff.1 h).1 (hdots _ mem_cons_self).2
    | cons label' labels' =>
      have hsplit := splitOn_intercalate dot (fun l hl => (hdots l hl).1)
        (cons_ne_nil label labels)
      have hsplit' := splitOn_intercalate dot (fun l hl => (hdots' l hl).1)
        (cons_ne_nil label' labels')
      rw [← joinLabels] at hsplit hsplit'
      rw [← hsplit, ← hsplit', h]

/-- Names without dots in their labels have the same labels if they have the same string. -/
theorem sameLabels_iff_joinLabels (hdots : ∀ label ∈ labels, dot ∉ label)
    (hdots' : ∀ label ∈ labels', dot ∉ label) (hvalid : ∀ label ∈ labels, ValidLabel label)
    (hvalid' : ∀ label ∈ labels', ValidLabel label) :
    SameLabels labels labels' ↔
      (joinLabels labels).map tolower = (joinLabels labels').map tolower := by
  have hlower : ∀ labels : List Bytes, (∀ label ∈ labels, dot ∉ label) →
      (∀ label ∈ labels, ValidLabel label) →
      ∀ label ∈ labels.map (List.map tolower), dot ∉ label ∧ label ≠ [] := by
    intro labels hdots hvalid lower hmem
    obtain ⟨label, hlabel, rfl⟩ := mem_map.1 hmem
    refine ⟨fun hdot => ?_, fun hnil => (hvalid label hlabel).1 (map_eq_nil_iff.1 hnil)⟩
    obtain ⟨c, hc, hlowerDot⟩ := mem_map.1 hdot
    exact hdots label hlabel ((tolower_eq_dot c).1 hlowerDot ▸ hc)
  rw [map_tolower_joinLabels, map_tolower_joinLabels]
  exact ⟨fun h => congrArg joinLabels h,
    joinLabels_injective (hlower labels hdots hvalid) (hlower labels' hdots' hvalid')⟩

theorem byte_of_inPlace {after : ℕ} (h : InPlace data offset after) :
    ∃ byte, data[offset]? = some byte ∧
      (byte.toNat = 0 ∧ after = offset + 1 ∨ 64 ≤ byte.toNat ∧ after = offset + 2 ∨
        (0 < byte.toNat ∧ byte.toNat < 64) ∧ InPlace data (offset + (1 + byte.toNat)) after) := by
  cases h with
  | root hroot => exact ⟨0, hroot, .inl ⟨rfl, rfl⟩⟩
  | label hvalid hdrop hrest =>
    obtain ⟨byte, hbyte, hlength, -⟩ := encodeLabel_of_drop hvalid hdrop
    have hpos := length_pos_iff.2 hvalid.1
    have hshort := hvalid.2
    exact ⟨byte, hbyte, .inr (.inr ⟨by omega, hlength ▸ hrest⟩)⟩
  | pointer hhigh hbyte => exact ⟨_, hbyte, .inr (.inl ⟨hhigh, rfl⟩)⟩

theorem inPlace_unique {after after' : ℕ} (h : InPlace data offset after)
    (h' : InPlace data offset after') : after = after' := by
  obtain ⟨limit, hlimit⟩ : ∃ limit, data.length - offset < limit := ⟨_, Nat.lt_succ_self _⟩
  induction limit generalizing offset with
  | zero => cases hlimit
  | succ limit ih =>
    obtain ⟨byte, hbyte, hcases⟩ := byte_of_inPlace h
    obtain ⟨byte', hbyte', hcases'⟩ := byte_of_inPlace h'
    cases hbyte.symm.trans hbyte'
    grind

/-- **Skipping from any label on**: it ends behind what stands in place of the name,
and a name that ends within the limit is skipped. -/
theorem dnsSkipLoop_spec (data : Bytes) (limit : ℕ) :
    ∀ offset : ℕ,
      (∃ after, dnsSkipLoop data limit offset = .ok after ∧ InPlace data offset after) ∨
      (dnsSkipLoop data limit offset = .error .einval ∧
        followChain (labelPlace data) (labelRecord data) limit offset = none) := by
  induction limit with
  | zero => exact fun offset => .inr ⟨rfl, rfl⟩
  | succ limit ih =>
    intro offset
    rw [dnsSkipLoop]
    rcases followChain_succ data limit offset with
      ⟨at_, hok, hlabel, hfollow⟩ | ⟨herror, hfollow⟩
    swap
    · rw [herror]
      exact .inr ⟨rfl, hfollow⟩
    rw [hok, hfollow]
    simp only
    by_cases hpointer : at_ = offset
    swap
    · rw [if_pos hpointer]
      refine .inl ⟨_, rfl, ?_⟩
      rcases dnsLabel_cases data offset with
        ⟨-, hhere⟩ | ⟨high, low, hhigh, hbyte, -⟩ | ⟨herror, -⟩
      · cases hok.symm.trans hhere
        exact absurd rfl hpointer
      · exact .pointer hhigh hbyte
      · cases hok.symm.trans herror
    subst hpointer
    have hbyte := getElem?_of_labelAt hlabel
    rw [if_neg (not_not.2 rfl)]
    by_cases hzero : (data.getD at_ 0).toNat = 0
    · rw [hzero]
      refine .inl ⟨_, rfl, .root ?_⟩
      rw [hbyte, UInt8.toNat_inj.1 (show (data.getD at_ 0).toNat = (0 : UInt8).toNat from hzero)]
    · rw [if_neg hzero, if_neg hzero]
      obtain ⟨rest, hvalid, hlength, hdrop⟩ :=
        drop_eq_encodeLabel hbyte hzero hlabel.plain hlabel.fits
      rcases ih (at_ + (1 + (data.getD at_ 0).toNat)) with
        ⟨after, hskip, hplace⟩ | ⟨herror, hrest⟩
      · rw [← hlength] at hplace
        exact .inl ⟨after, hskip, .label hvalid hdrop hplace⟩
      · exact .inr ⟨herror, by rw [hrest]; rfl⟩

/-- What the four functions do with a name that has these labels. -/
structure ReadAlike (name : DnsName) (labels : List Bytes) : Prop where
  decode : ∀ len,
    dnsDecode name len = (.ok (joinLabels labels).length, fitted (joinLabels labels) len)
  /-- a copy has no pointers, and is decoded to the same string -/
  copy : ∀ dst, ∃ n data, dnsCopy name dst = (.ok n, data) ∧
    (dst.offset + n ≤ dst.data.length →
      data = dst.data.take dst.offset ++ (encodeLabels labels ++ dst.data.drop (dst.offset + n)) ∧
      ∀ len, dnsDecode ⟨data, dst.offset⟩ len = dnsDecode name len)
  compare : ∀ other labels', NameAt other.data other.offset labels' →
    (dnsCompare name other = .ok () ↔ SameLabels labels labels') ∧
    ((∀ label ∈ labels ++ labels', dot ∉ label) →
      (dnsCompare name other = .ok () ↔
        (joinLabels labels).map tolower = (joinLabels labels').map tolower))
  skip : ∀ after, dnsSkip name = .ok after ↔ InPlace name.data name.offset after

/-- **The functions that read names agree.**  For every buffer and offset they all return;
where there is a name, all of them read it, and where there is none, all but `dns_skip` fail. -/
theorem dns_names_agree (name : DnsName) :
    (∀ labels, NameAt name.data name.offset labels → ReadAlike name labels) ∧
    ((∀ labels, ¬NameAt name.data name.offset labels) →
      (∀ len, (dnsDecode name len).1 = .error .einval) ∧
      (∀ dst, (dnsCopy name dst).1 = .error .einval) ∧
      ∀ other, dnsCompare name other ≠ .ok () ∧ dnsCompare other name ≠ .ok ()) := by
  constructor
  · intro labels hname
    have hcompare : ∀ other labels', NameAt other.data other.offset labels' →
        (dnsCompare name other = .ok () ↔ SameLabels labels labels') := by
      intro other labels' hother
      rw [dnsCompare_eq_ok_iff]
      constructor
      · rintro ⟨found, found', hfound, hfound', hsame⟩
        rwa [nameAt_unique hname hfound, nameAt_unique hother hfound']
      · exact fun hsame => ⟨labels, labels', hname, hother, hsame⟩
    refine ⟨dnsDecode_of_nameAt hname, ?_, ?_, ?_⟩
    · intro dst
      rcases dnsCopy_spec name dst with ⟨labels', hname', hcopy⟩ | ⟨hnone, -⟩
      swap
      · exact absurd hname (hnone labels)
      cases nameAt_unique hname hname'
      refine ⟨_, _, hcopy, fun hfits => ?_⟩
      rw [dnsCopyBytes_of_fits hfits]
      refine ⟨rfl, fun len => ?_⟩
      have hcopied := @nameAt_encodeLabels _ labels (dst.data.take dst.offset)
        (dst.data.drop (dst.offset + (encodeLabels labels).length)) (nameAt_valid hname) rfl
      rw [length_take_of_le (by omega)] at hcopied
      rw [dnsDecode_of_nameAt hname, dnsDecode_of_nameAt hcopied]
    · intro other labels' hother
      refine ⟨hcompare other labels' hother, fun hdots => ?_⟩
      rw [hcompare other labels' hother, sameLabels_iff_joinLabels
        (fun label hmem => hdots label (mem_append_left _ hmem))
        (fun label hmem => hdots label (mem_append_right _ hmem))
        (nameAt_valid hname) (nameAt_valid hother)]
    · intro after
      rcases dnsSkipLoop_spec name.data name.data.length name.offset with
        ⟨found, hskip, hplace⟩ | ⟨-, hnone⟩
      · rw [dnsSkip, hskip]
        constructor
        · intro h
          cases h
          exact hplace
        · intro h
          rw [inPlace_unique h hplace]
      · cases (nameLabels_eq_some.mpr hname).symm.trans hnone
  · intro hnone
    refine ⟨fun len => ?_, fun dst => ?_, fun other => ⟨fun h => ?_, fun h => ?_⟩⟩
    · rcases dnsDecode_spec name len with ⟨labels, hname, -⟩ | ⟨-, herror⟩
      · exact absurd hname (hnone labels)
      · exact herror
    · rcases dnsCopy_spec name dst with ⟨labels, hname, -⟩ | ⟨-, herror⟩
      · exact absurd hname (hnone labels)
      · exact herror
    · obtain ⟨labels, -, hname, -⟩ := (dnsCompare_eq_ok_iff name other).mp h
      exact hnone labels hname
    · obtain ⟨-, labels, -, hname, -⟩ := (dnsCompare_eq_ok_iff other name).mp h
      exact hnone labels hname

/-- `x.ab` at an offset from which a pointer leads back to `ab`. -/
theorem dns_names_agree_pointer :
    ReadAlike ⟨[2, 0x61, 0x62, 0, 1, 0x78, 0xc0, 0], 4⟩ [[0x78], [0x61, 0x62]] := by
  refine (dns_names_agree _).1 _ ?_
  refine @NameAt.label _ _ [0x78] [0xc0, 0] _ (by decide) rfl ?_
  refine @NameAt.pointer _ _ 0xc0 0 _ (by decide) rfl rfl (by decide) ?_
  exact @NameAt.label _ _ [0x61, 0x62] _ _ (by decide) rfl (.root rfl)

/-- **Names on which the functions differ**: a label and a pointer back to it, which is skipped
but has no end, and labels `a.b` and `a`, `b`, which have one string but are not the same. -/
theorem dns_names_differ :
    (dnsSkip ⟨[1, 0x61, 0xc0, 0], 0⟩ = .ok 4 ∧
      dnsDecode ⟨[1, 0x61, 0xc0, 0], 0⟩ 0 = (.error .einval, [])) ∧
    (dnsDecode ⟨[3, 0x61, 0x2e, 0x62, 0], 0⟩ 4 = (.ok 3, [0x61, 0x2e, 0x62, 0]) ∧
      dnsDecode ⟨[1, 0x61, 1, 0x62, 0], 0⟩ 4 = (.ok 3, [0x61, 0x2e, 0x62, 0]) ∧
      dnsCompare ⟨[3, 0x61, 0x2e, 0x62, 0], 0⟩ ⟨[1, 0x61, 1, 0x62, 0], 0⟩ = .error .enoent) := by
  decide +kernel

end Ipxe.Analysis
