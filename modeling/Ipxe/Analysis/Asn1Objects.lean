import Ipxe.Library.TagLengthValue
import Ipxe.Model.Asn1

/-!
# The objects an ASN.1 cursor goes through

`asn1_start` keeps a length in an `unsigned int`, so the ASN.1 functions see the objects of the
reading `asn1Len`, and those of `tlvLength` as long as no length is `2 ^ 32` or more.
-/

namespace Ipxe.Analysis

open Library Model List

variable {cursor body : Asn1Cursor} {type : Asn1Type} (octets : Bytes)

theorem asn1Len_foldl (start : ℕ) :
    octets.foldl (fun len octet => (len * 256 + octet.toNat) % 2 ^ 32) (start % 2 ^ 32) =
      octets.foldl (fun len octet => len * 256 + octet.toNat) start % 2 ^ 32 := by
  induction octets generalizing start with
  | nil => rfl
  | cons octet octets ih =>
    have hstep : (start % 2 ^ 32 * 256 + octet.toNat) % 2 ^ 32 =
        (start * 256 + octet.toNat) % 2 ^ 32 := by omega
    rw [foldl_cons, hstep]
    exact ih (start * 256 + octet.toNat)

theorem asn1Len_eq : asn1Len octets = tlvLength octets % 2 ^ 32 :=
  asn1Len_foldl octets 0

theorem asn1Len_of_lt (h : tlvLength octets < 2 ^ 32) : asn1Len octets = tlvLength octets := by
  rw [asn1Len_eq, Nat.mod_eq_of_lt h]

set_option maxRecDepth 2000 in
theorem and_0x80_eq_zero (first : UInt8) : first &&& 0x80 = 0 ↔ first.toNat < 128 := by
  have hall : ∀ n < 256, n &&& 128 = 0 ↔ n < 128 := by decide
  rw [← hall first.toNat first.toNat_lt, ← UInt8.toNat_inj, UInt8.toNat_and]
  rfl

set_option maxRecDepth 2000 in
theorem toNat_and_0x7f {first : UInt8} (h : ¬ first.toNat < 128) :
    (first &&& 0x7f).toNat = first.toNat - 128 := by
  have hall : ∀ n < 256, ¬ n < 128 → n &&& 127 = n - 128 := by decide
  rw [UInt8.toNat_and]
  exact hall first.toNat first.toNat_lt h

/-- The length field, as the source takes it apart and as the encoding does. -/
theorem tlvHeader_eq (tag first : UInt8) (rest : Bytes) :
    let lenLen := asn1LenLen (first :: rest)
    tlvHeader (tag :: first :: rest) =
      if lenLen.2.length < lenLen.1 then none
      else some (tag, lenLen.2.take lenLen.1, lenLen.2.drop lenLen.1) := by
  by_cases hshort : first.toNat < 128
  · have hbit : ¬ (first &&& 0x80 ≠ 0) := not_not.2 ((and_0x80_eq_zero first).2 hshort)
    simp [tlvHeader, asn1LenLen, hshort, hbit]
  · have hbit : first &&& 0x80 ≠ 0 := fun h => hshort ((and_0x80_eq_zero first).1 h)
    simp only [tlvHeader, asn1LenLen, if_pos hbit, toNat_and_0x7f hshort]
    split_ifs <;> first | rfl | omega

variable {tag : UInt8}

theorem asn1Type_of_tlvHeader {octets : Asn1Cursor}
    (h : tlvHeader cursor = some (tag, octets, body)) : asn1Type cursor = tag := by
  match cursor, h with
  | tag' :: first :: rest, h =>
    rw [tlvHeader_eq] at h
    split_ifs at h
    exact congrArg Prod.fst (Option.some.inj h)

/-- **What `asn1_start` does**, for a cursor whose type is the expected one. -/
theorem asn1Start_of_tlvHeader {octets : Asn1Cursor}
    (hheader : tlvHeader cursor = some (tag, octets, body))
    (htype : type = asn1Any ∨ type = some tag) :
    asn1Start cursor type 0 =
      if body.length < asn1Len octets then (.error .einvalAsn1Len, body)
      else if asn1Len octets < 2 ^ 31 then (.ok (asn1Len octets), body)
      else (.error (.raw (asn1Len octets - 2 ^ 32)), body) := by
  match cursor, hheader with
  | tag' :: first :: rest, hheader =>
    rw [tlvHeader_eq] at hheader
    split_ifs at hheader with hlenLen
    simp only [Option.some.injEq, Prod.mk.injEq] at hheader
    obtain ⟨rfl, rfl, rfl⟩ := hheader
    have htype' : ¬ (type ≠ asn1Any ∧ type ≠ some (asn1Type (tag' :: first :: rest))) := by
      rintro ⟨hany, htag⟩
      exact htype.elim hany htag
    simp only [asn1Start, if_neg htype', add_zero]
    exact if_neg hlenLen

theorem asn1Start_of_no_tlvHeader (hheader : tlvHeader cursor = none) (type : Asn1Type) (extra : ℕ) :
    ∃ rc next, asn1Start cursor type extra = (.error rc, next) := by
  match cursor, hheader with
  | [], _ => exact ⟨_, _, rfl⟩
  | [_], _ => exact ⟨_, _, rfl⟩
  | tag :: first :: rest, hheader =>
    rw [tlvHeader_eq] at hheader
    split_ifs at hheader with hlenLen
    unfold asn1Start
    split_ifs with hsize htype
    · exact ⟨_, _, rfl⟩
    · exact ⟨_, _, rfl⟩
    · exact ⟨_, _, if_pos hlenLen⟩

/-- Where an object begins, `asn1_enter` finds its content and `asn1_skip`
what follows it. -/
theorem asn1_of_tlvObject {content rest : Asn1Cursor}
    (hobject : tlvObject asn1Len cursor = some (tag, content, rest))
    (hlength : cursor.length < 2 ^ 31) :
    asn1Type cursor = tag ∧ asn1EnterAny cursor = (.ok (), content) ∧
      (asn1SkipAny cursor).2 = rest := by
  obtain ⟨octets, body, hheader, hle, rfl, rfl⟩ := tlvObject_eq_some hobject
  have hbody := tlvHeader_length hheader
  have hstart : asn1Start cursor asn1Any 0 = (.ok (asn1Len octets), body) := by
    rw [asn1Start_of_tlvHeader hheader (.inl rfl), if_neg (by omega), if_pos (by omega)]
  refine ⟨asn1Type_of_tlvHeader hheader, ?_, ?_⟩
  · rw [asn1EnterAny, asn1Enter, hstart]
  · rw [asn1SkipAny, asn1Skip, asn1SkipIfExists, hstart]
    by_cases hend : body.drop (asn1Len octets) = [] <;> simp [hend]

/-- Where no object begins, both invalidate the cursor. -/
theorem asn1_of_no_tlvObject (hobject : tlvObject asn1Len cursor = none) :
    (asn1EnterAny cursor).2 = [] ∧ (asn1SkipAny cursor).2 = [] := by
  have hstart : ∃ rc next, asn1Start cursor asn1Any 0 = (.error rc, next) := by
    cases hheader : tlvHeader cursor with
    | none => exact asn1Start_of_no_tlvHeader hheader asn1Any 0
    | some header =>
      obtain ⟨tag, octets, body⟩ := header
      have hlen : body.length < asn1Len octets := by
        by_contra hle
        simp [tlvObject, hheader, not_lt.1 hle] at hobject
      exact ⟨_, _, by rw [asn1Start_of_tlvHeader hheader (.inl rfl), if_pos hlen]⟩
  obtain ⟨rc, next, hstart⟩ := hstart
  refine ⟨?_, ?_⟩
  · rw [asn1EnterAny, asn1Enter, hstart]
  · rw [asn1SkipAny, asn1Skip, asn1SkipIfExists, hstart]

theorem asn1Start_eq_ok {len : ℕ} (h : asn1Start cursor type 0 = (.ok len, body)) :
    ∃ tag octets, tlvHeader cursor = some (tag, octets, body) ∧ len = asn1Len octets ∧
      len ≤ body.length ∧ len < 2 ^ 31 := by
  cases hheader : tlvHeader cursor with
  | none =>
    obtain ⟨rc, next, herror⟩ := asn1Start_of_no_tlvHeader hheader type 0
    rw [herror] at h
    cases h
  | some header =>
    obtain ⟨tag, octets, body'⟩ := header
    have hlength := tlvHeader_length hheader
    have htype : type = asn1Any ∨ type = some tag := by
      rw [← asn1Type_of_tlvHeader hheader]
      by_contra hwrong
      rw [asn1Start, if_neg (by omega), if_pos (not_or.1 hwrong)] at h
      cases h
    rw [asn1Start_of_tlvHeader hheader htype] at h
    split_ifs at h with hlen hint
    · cases h
    · cases h
      exact ⟨tag, octets, rfl, rfl, not_lt.1 hlen, hint⟩
    · cases h

/-- What is known of an object that has been started. -/
theorem asn1Start_ok {len : ℕ} (h : asn1Start cursor type 0 = (.ok len, body)) :
    body.length + 2 ≤ cursor.length ∧ cursor.length ≤ body.length + 129 ∧
      len ≤ body.length ∧ len < 2 ^ 31 := by
  obtain ⟨tag, octets, hheader, -, hle, hint⟩ := asn1Start_eq_ok h
  exact ⟨tlvHeader_length hheader, length_le_tlvHeader hheader, hle, hint⟩

/-- An object has a header and is not much longer than an `int` can tell. -/
theorem length_asn1Shrink (h : (asn1Shrink cursor type).1 = .ok ()) :
    2 ≤ (asn1Shrink cursor type).2.length ∧ (asn1Shrink cursor type).2.length < 2 ^ 31 + 2 ^ 8 := by
  unfold asn1Shrink at h ⊢
  split at h
  · cases h
  · next len body hstart =>
      have := asn1Start_ok hstart
      simp only [length_take]
      omega

theorem length_asn1SkipAny (h : cursor ≠ []) : (asn1SkipAny cursor).2.length < cursor.length := by
  have hpos := length_pos_iff.2 h
  rw [asn1SkipAny, asn1Skip, asn1SkipIfExists]
  match hstart : asn1Start cursor asn1Any 0 with
  | (.error rc, body) => exact hpos
  | (.ok len, body) =>
    have := asn1Start_ok hstart
    by_cases hend : body.drop len = []
    · simpa [hend] using hpos
    · simp only [hend, if_false, length_drop]
      omega

theorem asn1Start_of_success
    (h : (asn1Enter cursor type).1 = .ok () ∨ (asn1Skip cursor type).1 = .ok () ∨
      (asn1Shrink cursor type).1 = .ok ()) :
    ∃ len body, asn1Start cursor type 0 = (.ok len, body) := by
  rw [asn1Enter, asn1Skip, asn1SkipIfExists, asn1Shrink] at h
  match hstart : asn1Start cursor type 0 with
  | (.ok len, body) => exact ⟨len, body, rfl⟩
  | (.error rc, body) =>
    simp only [hstart] at h
    rcases h with h | h | h <;> cases h

/-- **Bounds of objects.**  Entering, skipping and shrinking cut a cursor at the same
places, inside of it; the content is as long as the length field says exactly if that is less
than `2 ^ 32`.
[crypto/asn1.c:98-255] -/
theorem asn1_object_bounds (cursor : Asn1Cursor) (type : Asn1Type)
    (hok : (asn1Enter cursor type).1 = .ok () ∨ (asn1Skip cursor type).1 = .ok () ∨
      (asn1Shrink cursor type).1 = .ok ()) :
    ∃ tag octets header content rest,
      tlvHeader cursor = some (tag, octets, content ++ rest) ∧
      cursor = header ++ (content ++ rest) ∧
      asn1Enter cursor type = (.ok (), content) ∧
      asn1Skip cursor type = (if rest = [] then .error .enoent else .ok (), rest) ∧
      asn1Shrink cursor type = (.ok (), header ++ content) ∧
      (content.length = tlvLength octets ↔ tlvLength octets < 2 ^ 32) := by
  obtain ⟨len, body, hstart⟩ := asn1Start_of_success hok
  obtain ⟨tag, octets, hheader, hlen, hle, -⟩ := asn1Start_eq_ok hstart
  obtain ⟨header, hcursor⟩ := suffix_of_tlvHeader hheader
  have hbody : body.take len ++ body.drop len = body := take_append_drop len body
  refine ⟨tag, octets, header, body.take len, body.drop len, ?_, ?_, ?_, ?_, ?_, ?_⟩
  · rw [hbody, hheader]
  · rw [hbody, hcursor]
  · rw [asn1Enter, hstart]
  · rw [asn1Skip, asn1SkipIfExists, hstart]
    by_cases hend : body.drop len = [] <;> simp [hend]
  · have hsize : cursor.length - body.length + len = (header ++ body.take len).length := by
      rw [← hcursor, length_append, length_append, length_take_of_le hle]
      omega
    rw [asn1Shrink, hstart]
    simp only [hsize]
    nth_rewrite 1 [← hcursor]
    rw [← hbody, ← append_assoc, hbody, take_left]
  · rw [length_take_of_le hle, hlen, asn1Len_eq]
    exact ⟨fun h => h ▸ Nat.mod_lt _ (by norm_num), Nat.mod_eq_of_lt⟩

/-- A sequence of one byte with another object behind. -/
theorem asn1_object_bounds_sequence :
    (asn1Enter [0x30, 0x01, 0xaa, 0x05, 0x00] (some asn1TagSequence)).1 = .ok () ∧
    ∃ tag octets header content rest,
      tlvHeader [0x30, 0x01, 0xaa, 0x05, 0x00] = some (tag, octets, content ++ rest) ∧
      [0x30, 0x01, 0xaa, 0x05, 0x00] = header ++ (content ++ rest) ∧
      asn1Enter [0x30, 0x01, 0xaa, 0x05, 0x00] (some asn1TagSequence) = (.ok (), content) ∧
      asn1Skip [0x30, 0x01, 0xaa, 0x05, 0x00] (some asn1TagSequence) =
        (if rest = [] then .error .enoent else .ok (), rest) ∧
      asn1Shrink [0x30, 0x01, 0xaa, 0x05, 0x00] (some asn1TagSequence) = (.ok (), header ++ content) ∧
      (content.length = tlvLength octets ↔ tlvLength octets < 2 ^ 32) :=
  ⟨by decide, asn1_object_bounds _ _ (Or.inl (by decide))⟩

/-- Five length bytes that denote `2 ^ 32 + 1`: an object of one byte is entered. -/
theorem asn1_object_bounds_five_octets :
    tlvHeader [0x30, 0x85, 0x01, 0x00, 0x00, 0x00, 0x01, 0xaa] =
      some (0x30, [0x01, 0x00, 0x00, 0x00, 0x01], [0xaa]) ∧
    tlvLength [0x01, 0x00, 0x00, 0x00, 0x01] = 2 ^ 32 + 1 ∧
    asn1Enter [0x30, 0x85, 0x01, 0x00, 0x00, 0x00, 0x01, 0xaa] (some asn1TagSequence) =
      (.ok (), [0xaa]) := by
  decide

theorem length_asn1LenLen (cursor : Asn1Cursor) : (asn1LenLen cursor).2.length ≤ cursor.length := by
  cases cursor with
  | nil => exact le_rfl
  | cons first rest =>
    rw [asn1LenLen]
    split_ifs
    · exact Nat.le_succ _
    · exact le_rfl

/-- Where the tag is the expected one, the cursor moves behind it whatever comes next. -/
theorem length_asn1Start_lt (hlength : ¬cursor.length < 2)
    (htype : ¬(type ≠ asn1Any ∧ type ≠ some (asn1Type cursor))) (extra : ℕ) :
    (asn1Start cursor type extra).2.length < cursor.length := by
  have hfield := length_asn1LenLen cursor.tail
  rw [length_tail] at hfield
  unfold asn1Start
  dsimp only
  split_ifs
  all_goals
    simp only [length_drop]
    omega

theorem length_asn1SkipIfExists_lt (hlength : ¬cursor.length < 2)
    (htype : ¬(type ≠ asn1Any ∧ type ≠ some (asn1Type cursor))) :
    (asn1SkipIfExists cursor type).2.length < cursor.length := by
  have hstart := length_asn1Start_lt hlength htype 0
  unfold asn1SkipIfExists
  match asn1Start cursor type 0, hstart with
  | (.error rc, body), hstart => exact hstart
  | (.ok len, body), hstart =>
    dsimp only at hstart ⊢
    split_ifs
    · exact Nat.zero_lt_of_lt hstart
    · rw [length_drop]
      exact (Nat.sub_le _ _).trans_lt hstart

/-- **When skipping works**: at an object of the expected type, with something behind it. -/
theorem asn1SkipIfExists_ok (htype : ¬(type ≠ asn1Any ∧ type ≠ some (asn1Type cursor))) :
    (asn1SkipIfExists cursor type).1 = .ok () ↔
      ∃ tag content rest, tlvObject asn1Len cursor = some (tag, content, rest) ∧
        content.length < 2 ^ 31 ∧ rest ≠ [] := by
  have htag : type = asn1Any ∨ type = some (asn1Type cursor) := by
    by_contra hother
    exact htype (not_or.1 hother)
  constructor
  · intro h
    unfold asn1SkipIfExists at h
    match hstart : asn1Start cursor type 0 with
    | (.error rc, body) =>
      simp only [hstart] at h
      cases h
    | (.ok len, body) =>
      obtain ⟨tag, octets, hheader, rfl, hle, hint⟩ := asn1Start_eq_ok hstart
      simp only [hstart] at h
      split_ifs at h with hend
      refine ⟨tag, body.take (asn1Len octets), body.drop (asn1Len octets), ?_, ?_, hend⟩
      · simp only [tlvObject, hheader, if_pos hle]
      · rw [length_take_of_le hle]
        exact hint
  · rintro ⟨tag, content, rest, hobject, hint, hrest⟩
    obtain ⟨octets, body, hheader, hle, rfl, rfl⟩ := tlvObject_eq_some hobject
    rw [length_take_of_le hle] at hint
    rw [asn1Type_of_tlvHeader hheader] at htag
    rw [asn1SkipIfExists, asn1Start_of_tlvHeader hheader htag, if_neg (by omega), if_pos hint]
    dsimp only
    rw [if_neg hrest]

/-- **Errors and the cursor.**  If skipping fails the cursor is left as it was exactly where
it is too short for an object or its tag is another one (or where skipping works); an error of
`asn1_skip` invalidates it.
[crypto/asn1.c:172-223] -/
theorem asn1_skip_if_exists_cursor (cursor : Asn1Cursor) (type : Asn1Type) :
    (((asn1SkipIfExists cursor type).1 ≠ .ok () → (asn1SkipIfExists cursor type).2 = cursor) ↔
      (cursor.length < 2 ∨ (type ≠ asn1Any ∧ type ≠ some (asn1Type cursor)) ∨
        ∃ tag content rest, tlvObject asn1Len cursor = some (tag, content, rest) ∧
          content.length < 2 ^ 31 ∧ rest ≠ [])) ∧
    ((asn1Skip cursor type).1 ≠ .ok () → (asn1Skip cursor type).2 = []) := by
  refine ⟨?_, ?_⟩
  · by_cases hlength : cursor.length < 2
    · refine iff_of_true (fun _ => ?_) (.inl hlength)
      rw [asn1SkipIfExists, asn1Start, if_pos hlength]
    · by_cases htype : type ≠ asn1Any ∧ type ≠ some (asn1Type cursor)
      · refine iff_of_true (fun _ => ?_) (.inr (.inl htype))
        rw [asn1SkipIfExists, asn1Start, if_neg hlength, if_pos htype]
      · rw [← asn1SkipIfExists_ok htype]
        constructor
        · intro h
          by_contra herror
          have hmoved := length_asn1SkipIfExists_lt hlength htype
          rw [h fun hok => herror (.inr (.inr hok))] at hmoved
          exact lt_irrefl _ hmoved
        · rintro (h | h | h) herror
          · exact absurd h hlength
          · exact absurd h htype
          · exact absurd h herror
  · intro herror
    unfold asn1Skip at herror ⊢
    split at herror
    · rfl
    · exact absurd rfl herror

/-- A sequence that is cut short, and one with nothing behind it. -/
theorem asn1_skip_if_exists_cursor_moved :
    asn1SkipIfExists [0x30, 0x05, 0x01] asn1TagSequence = (.error .einvalAsn1Len, [0x01]) ∧
      asn1SkipIfExists [0x30, 0x01, 0xaa] asn1TagSequence = (.error .enoent, []) := by
  decide

theorem asn1WalkUpTo_eq {turns turns' : ℕ} {cursor : Asn1Cursor} (h : cursor.length ≤ turns)
    (h' : cursor.length ≤ turns') : asn1WalkUpTo turns cursor = asn1WalkUpTo turns' cursor := by
  induction turns generalizing turns' cursor with
  | zero =>
    have hnil : cursor = [] := length_eq_zero_iff.1 (Nat.le_zero.1 h)
    rw [hnil]
    cases turns' <;> rfl
  | succ turns ih =>
    by_cases hnil : cursor = []
    · rw [hnil]
      cases turns' <;> rfl
    · have hskip := length_asn1SkipAny hnil
      cases turns' with
      | zero => omega
      | succ turns' =>
        rw [asn1WalkUpTo, asn1WalkUpTo, if_neg hnil, if_neg hnil,
          @ih turns' _ (by omega) (by omega)]

@[simp] theorem asn1Walk_nil : asn1Walk [] = [] := rfl

theorem asn1Walk_cons (h : cursor ≠ []) :
    asn1Walk cursor = cursor :: asn1Walk (asn1SkipAny cursor).2 := by
  have hskip := length_asn1SkipAny h
  have hmore : asn1Walk cursor = asn1WalkUpTo (cursor.length + 1) cursor :=
    asn1WalkUpTo_eq le_rfl (Nat.le_succ _)
  rw [hmore, asn1WalkUpTo, if_neg h]
  congr 1
  exact asn1WalkUpTo_eq hskip.le le_rfl

/-- **A loop over objects ends**, after at most as many turns as there are
bytes. -/
theorem asn1Walk_ends (cursor : Asn1Cursor) :
    ∃ turns ≤ cursor.length, (fun c => (asn1SkipAny c).2)^[turns] cursor = [] := by
  induction hn : cursor.length using Nat.strong_induction_on generalizing cursor with
  | _ n ih =>
    by_cases hnil : cursor = []
    · exact ⟨0, Nat.zero_le n, hnil⟩
    · have hskip := length_asn1SkipAny hnil
      obtain ⟨turns, hle, hend⟩ := ih _ (hn ▸ hskip) (asn1SkipAny cursor).2 rfl
      exact ⟨turns + 1, by omega, hend⟩

end Ipxe.Analysis
