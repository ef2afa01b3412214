import Ipxe.Analysis.Asn1Objects
import Ipxe.Interface.Asn1Nesting

/-!
# What is built can be parsed

The headers that the ASN.1 builder writes are read back by the ASN.1 parser: an object
that was wrapped is entered again, and an object that was prepended is skipped.
-/

namespace Ipxe.Analysis

open Library Model Interface List Option

variable {builder : Asn1Builder}

theorem tlvLength_append (octets : Bytes) (octet : UInt8) :
    tlvLength (octets ++ [octet]) = tlvLength octets * 256 + octet.toNat := by
  simp [tlvLength]

theorem length_asn1LengthOctets (more len : ℕ) : (asn1LengthOctets more len).length ≤ more := by
  induction more generalizing len with
  | zero => simp [asn1LengthOctets]
  | succ more ih =>
    rw [asn1LengthOctets]
    split_ifs
    · simp
    · have := ih (len / 256)
      simp only [length_append, length_singleton]
      omega

/-- The length octets are read as the length. -/
theorem tlvLength_asn1LengthOctets (more len : ℕ) :
    tlvLength (asn1LengthOctets more len) = len % 256 ^ more := by
  induction more generalizing len with
  | zero => simp [asn1LengthOctets, tlvLength, Nat.mod_one]
  | succ more ih =>
    rw [asn1LengthOctets]
    split_ifs with hzero
    · simp [tlvLength, hzero]
    · rw [tlvLength_append, ih, UInt8.toNat_ofNat', Nat.mod_mod_of_dvd _ (by norm_num),
        pow_succ' 256 more, Nat.mod_mul]
      ring

theorem toNat_longLength {count : ℕ} (h : count ≤ 8) :
    (0x80 ||| UInt8.ofNat count).toNat = 128 + count := by
  have hall : ∀ n ≤ 8, (0x80 ||| UInt8.ofNat n).toNat = 128 + n := by decide
  exact hall count h

/-- **A header is read back**: its tag, and bytes that denote its length, as far as an
`unsigned int` can hold it. -/
theorem tlvHeader_asn1Header (type : UInt8) (len : ℕ) (rest : Bytes) :
    ∃ octets, tlvHeader (asn1Header type len ++ rest) = some (type, octets, rest) ∧
      asn1Len octets = len % 2 ^ 32 := by
  unfold asn1Header
  split_ifs with hshort
  · refine ⟨[UInt8.ofNat len], ?_, ?_⟩
    · have : (UInt8.ofNat len).toNat < 128 := by rw [UInt8.toNat_ofNat']; omega
      simp only [cons_append, nil_append, tlvHeader, if_pos this]
    · rw [asn1Len_eq]
      simp only [tlvLength, foldl_cons, foldl_nil, UInt8.toNat_ofNat']
      omega
  · have hcount := length_asn1LengthOctets 8 len
    have hfirst := toNat_longLength hcount
    refine ⟨asn1LengthOctets 8 len, ?_, ?_⟩
    · have hlong : ¬ 128 + (asn1LengthOctets 8 len).length < 128 := by omega
      simp [tlvHeader, hfirst]
    · rw [asn1Len_eq, tlvLength_asn1LengthOctets, Nat.mod_mod_of_dvd _ (by norm_num)]

section

variable {type : Asn1Type} {tag : UInt8} {content rest : Bytes}

/-- The bytes of an object in front of other bytes. -/
def objectBytes (tag : UInt8) (content rest : Bytes) : Asn1Cursor :=
  asn1Header tag content.length ++ (content ++ rest)

/-- **What is made of an object.**  Its length may not fit the `int` that `asn1_start`
returns, or not even the `unsigned int` that it is read into. -/
theorem asn1_objectBytes (htype : type = asn1Any ∨ type = some tag) (content rest : Bytes) :
    let len := content.length % 2 ^ 32
    ∃ rc, asn1Enter (objectBytes tag content rest) type =
        (if len < 2 ^ 31 then (.ok (), (content ++ rest).take len) else (.error rc, [])) ∧
      asn1Skip (objectBytes tag content rest) type =
        if len < 2 ^ 31 then
          if (content ++ rest).drop len = [] then (.error .enoent, [])
          else (.ok (), (content ++ rest).drop len)
        else (.error rc, []) := by
  obtain ⟨octets, hheader, hlength⟩ := tlvHeader_asn1Header tag content.length (content ++ rest)
  have hle := Nat.mod_le content.length (2 ^ 32)
  have hstart := asn1Start_of_tlvHeader hheader htype
  rw [hlength] at hstart
  generalize content.length % 2 ^ 32 = len at hle hstart
  rw [if_neg (by rw [length_append]; omega)] at hstart
  refine ⟨.raw (len - 2 ^ 32), ?_⟩
  rw [asn1Enter, asn1Skip, asn1SkipIfExists, objectBytes, hstart]
  by_cases hfits : len < 2 ^ 31
  · simp only [if_pos hfits, true_and]
    split_ifs <;> rfl
  · simp only [if_neg hfits, and_self]

theorem asn1_objectBytes_refused (hany : type ≠ asn1Any) (htype : type ≠ some tag)
    (content rest : Bytes) :
    asn1Enter (objectBytes tag content rest) type = (.error .enxio, []) ∧
      asn1Skip (objectBytes tag content rest) type = (.error .enxio, []) := by
  obtain ⟨octets, hheader, -⟩ := tlvHeader_asn1Header tag content.length (content ++ rest)
  have htag : asn1Type (objectBytes tag content rest) = tag := asn1Type_of_tlvHeader hheader
  have hlength : ¬ (objectBytes tag content rest).length < 2 :=
    not_lt.2 (le_trans (Nat.le_add_left 2 _) (tlvHeader_length hheader))
  have hstart : asn1Start (objectBytes tag content rest) type 0 =
      (.error .enxio, objectBytes tag content rest) := by
    rw [asn1Start, htag, if_neg hlength, if_pos ⟨hany, htype⟩]
  rw [asn1Enter, asn1Skip, asn1SkipIfExists, hstart]
  exact ⟨rfl, rfl⟩

theorem isObject_objectBytes {content' rest' : Bytes} :
    IsObject (objectBytes tag content rest) tag content' rest' ↔
      content.length % 2 ^ 32 < 2 ^ 31 ∧
        content' = (content ++ rest).take (content.length % 2 ^ 32) ∧
        rest' = (content ++ rest).drop (content.length % 2 ^ 32) := by
  constructor
  · intro h
    have htype : asn1Any = asn1Any ∨ asn1Any = some tag := .inl rfl
    obtain ⟨henter, hskip⟩ := h.accepted asn1Any htype
    obtain ⟨rc, henter', hskip'⟩ := asn1_objectBytes htype content rest
    rw [henter] at henter'
    rw [hskip] at hskip'
    by_cases hfits : content.length % 2 ^ 32 < 2 ^ 31
    · rw [if_pos hfits] at henter' hskip'
      refine ⟨hfits, congrArg Prod.snd henter', ?_⟩
      split_ifs at hskip' with hrest hdrop hdrop
      · exact hrest.trans hdrop.symm
      · cases congrArg Prod.fst hskip'
      · cases congrArg Prod.fst hskip'
      · exact congrArg Prod.snd hskip'
    · rw [if_neg hfits] at henter'
      cases congrArg Prod.fst henter'
  · rintro ⟨hfits, rfl, rfl⟩
    refine ⟨fun type htype => ?_, fun type hany htype =>
      asn1_objectBytes_refused hany htype content rest⟩
    obtain ⟨rc, henter, hskip⟩ := asn1_objectBytes htype content rest
    rw [if_pos hfits] at henter hskip
    exact ⟨henter, hskip⟩

theorem isObject_objectBytes_of_right {content' rest' : Bytes}
    (hright : content' = content ∨ rest' = rest) :
    IsObject (objectBytes tag content rest) tag content' rest' ↔
      content.length < 2 ^ 31 ∧ content' = content ∧ rest' = rest := by
  rw [isObject_objectBytes]
  constructor
  · rintro ⟨hfits, hcontent, hrest⟩
    have hlength : content.length % 2 ^ 32 = content.length := by
      rcases hright with h | h
      · have hsame := congrArg List.length (h.symm.trans hcontent)
        rw [length_take] at hsame
        omega
      · have hsame := congrArg List.length (h.symm.trans hrest)
        rw [length_drop, length_append] at hsame
        omega
    rw [hlength] at hfits hcontent hrest
    exact ⟨hfits, by rw [hcontent, take_left], by rw [hrest, drop_left]⟩
  · rintro ⟨hfits, rfl, rfl⟩
    rw [Nat.mod_eq_of_lt (hfits.trans (by norm_num)), take_left, drop_left]
    exact ⟨hfits, rfl, rfl⟩

/-- An object that was wrapped is entered again, unless it is too long for an
`int`. -/
theorem asn1Enter_asn1Header (type : UInt8) {content : Bytes} (hlen : content.length < 2 ^ 32) :
    (asn1Enter (asn1Header type content.length ++ content) type).2 = content ∨
      (asn1Enter (asn1Header type content.length ++ content) type).2 = [] := by
  obtain ⟨rc, henter, -⟩ := asn1_objectBytes (.inr rfl : some type = asn1Any ∨ _) content []
  rw [objectBytes, append_nil, Nat.mod_eq_of_lt hlen] at henter
  rw [henter]
  split_ifs
  · left
    exact take_length
  · right
    rfl

/-- What was prepended is skipped. -/
theorem asn1Skip_asn1Header (type : UInt8) {content rest : Bytes}
    (hlen : content.length < 2 ^ 31) (hrest : rest ≠ []) :
    asn1Skip (asn1Header type content.length ++ content ++ rest) type = (.ok (), rest) := by
  obtain ⟨rc, -, hskip⟩ := asn1_objectBytes (.inr rfl : some type = asn1Any ∨ _) content rest
  rw [Nat.mod_eq_of_lt (hlen.trans (by norm_num)), if_pos hlen, drop_left, if_neg hrest] at hskip
  rw [append_assoc]
  exact hskip

end

theorem readAs_plain {tag : UInt8} {data bytes : Bytes} {objects : Asn1Objects} :
    ReadAs (.plain tag data objects) (objectBytes tag data bytes) ↔
      data.length < 2 ^ 31 ∧ ReadAs objects bytes := by
  constructor
  · rintro ⟨rest, hobject, hrest⟩
    obtain ⟨hfits, -, rfl⟩ := (isObject_objectBytes_of_right (.inl rfl)).1 hobject
    exact ⟨hfits, hrest⟩
  · rintro ⟨hfits, hrest⟩
    exact ⟨bytes, (isObject_objectBytes_of_right (.inl rfl)).2 ⟨hfits, rfl, rfl⟩, hrest⟩

theorem readAs_nested {tag : UInt8} {bytes : Bytes} {objects : Asn1Objects} :
    ReadAs (.nested tag objects .none) (objectBytes tag bytes []) ↔
      bytes.length < 2 ^ 31 ∧ ReadAs objects bytes := by
  constructor
  · rintro ⟨content, rest, hobject, hinner, hrest⟩
    obtain ⟨hfits, rfl, -⟩ := (isObject_objectBytes_of_right (.inr hrest)).1 hobject
    exact ⟨hfits, hinner⟩
  · rintro ⟨hfits, hinner⟩
    exact ⟨bytes, [], (isObject_objectBytes_of_right (.inr rfl)).2 ⟨hfits, rfl, rfl⟩, hinner, rfl⟩

/-- A builder whose allocations have succeeded. -/
def Intact (builder : Asn1Builder) : Prop :=
  builder.len = builder.bytes.length ∧ (builder.len ≠ 0 → builder.data ≠ none)

theorem asn1Grow_intact (h : Intact builder) (bytes : Bytes) :
    Intact (asn1Grow builder bytes true).2 ∧
      (asn1Grow builder bytes true).2.bytes = bytes ++ builder.bytes := by
  obtain ⟨hlen, hdata⟩ := h
  have hgrow : asn1Grow builder bytes true =
      (.ok (), ⟨some (bytes ++ builder.bytes), builder.len + bytes.length⟩) := by
    unfold asn1Grow
    rw [if_neg fun hbroken => hdata hbroken.1 hbroken.2]
    rfl
  rw [hgrow]
  refine ⟨⟨?_, fun _ => some_ne_none _⟩, rfl⟩
  simp only [Asn1Builder.bytes, getD_some, length_append] at hlen ⊢
  omega

/-- A step is read back if its length fits. -/
theorem readAs_builderStep (h : Intact builder) (objects : Asn1Objects) (op : BuilderOp) :
    Intact (builderStep builder op) ∧
      (ReadAs (objectsStep objects op) (builderStep builder op).bytes ↔
        LengthFits builder op ∧ ReadAs objects builder.bytes) := by
  cases op with
  | prepend type data =>
    obtain ⟨hintact, hbytes⟩ := asn1Grow_intact h (asn1Header type data.length ++ data)
    refine ⟨hintact, ?_⟩
    unfold builderStep asn1Prepend objectsStep LengthFits
    rw [hbytes, append_assoc]
    exact readAs_plain
  | wrap type =>
    obtain ⟨hintact, hbytes⟩ := asn1Grow_intact h (asn1Header type builder.len)
    refine ⟨hintact, ?_⟩
    unfold builderStep asn1Wrap objectsStep LengthFits
    rw [hbytes, h.1]
    have hwrapped := @readAs_nested type builder.bytes objects
    rwa [objectBytes, append_nil] at hwrapped

/-- **A whole run is read back** exactly if the length of every object fits an `int`. -/
theorem readAs_run (ops : List BuilderOp) (h : Intact builder) (objects : Asn1Objects) :
    ReadAs (run objectsStep objects ops) (run builderStep builder ops).bytes ↔
      Meets builderStep LengthFits builder ops ∧ ReadAs objects builder.bytes := by
  induction ops generalizing builder objects with
  | nil => exact (and_iff_right trivial).symm
  | cons op ops ih =>
    obtain ⟨hintact, hstep⟩ := readAs_builderStep h objects op
    rw [run_cons, run_cons, ih hintact, meets_cons]
    tauto

/-- A block of the heap has no room for an object whose length does not fit. -/
theorem lengthFits_of_granted (h : Intact builder) {op : BuilderOp} (hgranted : Granted builder op) :
    LengthFits builder op := by
  have hintact := (readAs_builderStep h .none op).1
  rw [Granted, hintact.1, heapSize] at hgranted
  cases op with
  | prepend type data =>
    have hbytes := (asn1Grow_intact h (asn1Header type data.length ++ data)).2
    rw [builderStep, asn1Prepend, hbytes, length_append, length_append] at hgranted
    rw [LengthFits]
    omega
  | wrap type =>
    have hbytes := (asn1Grow_intact h (asn1Header type builder.len)).2
    rw [builderStep, asn1Wrap, hbytes, length_append, ← h.1] at hgranted
    rw [LengthFits]
    omega

/-- **What is built is read back**, whenever the allocations can succeed.
[crypto/asn1.c:98-223,714-846] -/
theorem asn1_builder_round_trip (ops : List BuilderOp) (halloc : Meets builderStep Granted {} ops) :
    ReadAs (run objectsStep .none ops) (run builderStep {} ops).bytes := by
  have hintact : Intact {} := ⟨rfl, fun h => absurd rfl h⟩
  rw [readAs_run ops hintact]
  refine ⟨halloc.imp (fun _ op h _ => ?_) (fun _ _ h hop => ?_) hintact, rfl⟩
  · exact (readAs_builderStep h .none op).1
  · exact lengthFits_of_granted h hop

theorem asn1_builder_round_trip_nested :
    ReadAs (.nested 0x30 (.plain 0x02 [1] (.plain 0x04 [2, 3] .none)) .none)
      (run builderStep {} [.prepend 0x04 [2, 3], .prepend 0x02 [1], .wrap 0x30]).bytes :=
  asn1_builder_round_trip [.prepend 0x04 [2, 3], .prepend 0x02 [1], .wrap 0x30] (by decide)

/-! ## Failed allocations -/

theorem asn1Header_ne_nil (type : UInt8) (len : ℕ) : asn1Header type len ≠ [] := by
  unfold asn1Header
  split_ifs <;> simp

/-- Every operation grows the builder. -/
theorem builderCall_eq (builder : Asn1Builder) (call : BuilderCall) :
    ∃ bytes, builderCall builder call = asn1Grow builder bytes call.alloc ∧
      (call.Adds → bytes ≠ []) := by
  cases call with
  | prependRaw data alloc => exact ⟨data, rfl, id⟩
  | prepend type data alloc =>
    exact ⟨_, rfl, fun _ => append_ne_nil_of_left_ne_nil (asn1Header_ne_nil type _) _⟩
  | wrap type alloc => exact ⟨_, rfl, fun _ => asn1Header_ne_nil type _⟩

/-- **A builder that has lost its data does nothing any more.** -/
theorem builderCall_lost {len : ℕ} (hlen : len ≠ 0) (call : BuilderCall) :
    builderCall ⟨none, len⟩ call = (.error .enomem, ⟨none, len⟩) := by
  obtain ⟨bytes, hcall, -⟩ := builderCall_eq ⟨none, len⟩ call
  rw [hcall, asn1Grow, if_pos ⟨hlen, rfl⟩]

theorem afterCalls_lost {len : ℕ} (hlen : len ≠ 0) (calls : List BuilderCall) :
    afterCalls ⟨none, len⟩ calls = ⟨none, len⟩ := by
  induction calls with
  | nil => rfl
  | cons call calls ih =>
    rw [afterCalls, run_cons, builderCall_lost hlen]
    exact ih

/-- A failed operation leaves the length, and no data. -/
theorem builderCall_fails {call : BuilderCall} (h : CallFails builder call) :
    (builderCall builder call).2 = ⟨none, builder.len⟩ := by
  obtain ⟨bytes, hcall, -⟩ := builderCall_eq builder call
  rw [CallFails, hcall, asn1Grow] at h
  rw [hcall, asn1Grow]
  split_ifs at h ⊢ with hlost
  · rw [← hlost.2]
  · rfl
  · exact absurd rfl h

/-- An operation whose allocation fails returns an error. -/
theorem callFails_of_alloc {call : BuilderCall} (h : call.alloc = false) : CallFails builder call := by
  obtain ⟨bytes, hcall, -⟩ := builderCall_eq builder call
  simp only [CallFails, hcall, asn1Grow, h, Bool.not_false, if_true]
  split_ifs <;> simp

/-- The length never decreases. -/
theorem len_le_builderCall (builder : Asn1Builder) (call : BuilderCall) :
    builder.len ≤ (builderCall builder call).2.len := by
  obtain ⟨bytes, hcall, -⟩ := builderCall_eq builder call
  rw [hcall, asn1Grow]
  split_ifs <;> simp

/-- If an operation succeeds, then so have all allocations since the builder was not empty. -/
theorem alloc_of_succeeds {calls : List BuilderCall} {last : BuilderCall} (hlen : builder.len ≠ 0)
    (h : ¬ CallFails (afterCalls builder calls) last) :
    ∀ call ∈ calls ++ [last], call.alloc = true := by
  induction calls generalizing builder with
  | nil =>
    have hlast : last.alloc = true := by
      by_contra hfalse
      exact h (callFails_of_alloc (Bool.eq_false_of_not_eq_true hfalse))
    simpa using hlast
  | cons call calls ih =>
    have hafter : afterCalls builder (call :: calls) = afterCalls (builderCall builder call).2 calls :=
      rfl
    rw [hafter] at h
    have hcall : call.alloc = true := by
      by_contra hfalse
      rw [builderCall_fails (callFails_of_alloc (Bool.eq_false_of_not_eq_true hfalse)),
        afterCalls_lost hlen, CallFails, builderCall_lost hlen] at h
      exact h (by simp)
    have hle := len_le_builderCall builder call
    rw [cons_append, forall_mem_cons]
    exact ⟨hcall, ih (by omega) h⟩

/-- **The allocations that have failed when an operation succeeds** are the first ones: the others came
when there was something to lose. -/
theorem alloc_eq_of_succeeds {calls : List BuilderCall} {last : BuilderCall}
    (hadds : ∀ call ∈ calls, call.Adds) (h : ¬ CallFails (afterCalls {} calls) last) :
    ∃ first ≤ calls.length, (calls ++ [last]).map BuilderCall.alloc =
      replicate first false ++ replicate (calls.length + 1 - first) true := by
  induction calls with
  | nil =>
    have hlast : last.alloc = true := by
      by_contra hfalse
      exact h (callFails_of_alloc (Bool.eq_false_of_not_eq_true hfalse))
    exact ⟨0, le_rfl, by simp [hlast]⟩
  | cons call calls ih =>
    obtain ⟨hcall, hcalls⟩ := forall_mem_cons.1 hadds
    have hafter : afterCalls {} (call :: calls) = afterCalls (builderCall {} call).2 calls := rfl
    rw [hafter] at h
    cases halloc : call.alloc with
    | false =>
      rw [builderCall_fails (callFails_of_alloc halloc)] at h
      obtain ⟨first, hle, hmap⟩ := ih hcalls h
      refine ⟨first + 1, Nat.succ_le_succ hle, ?_⟩
      rw [cons_append, map_cons, hmap, halloc, replicate_succ, cons_append, length_cons,
        Nat.add_sub_add_right]
    | true =>
      obtain ⟨bytes, hgrow, hbytes⟩ := builderCall_eq {} call
      have hpos := length_pos_iff.2 (hbytes hcall)
      have hlen : (builderCall {} call).2.len ≠ 0 := by
        rw [hgrow, halloc]
        exact Nat.ne_of_gt (Nat.add_pos_right 0 hpos)
      have hrest := alloc_of_succeeds hlen h
      refine ⟨0, Nat.zero_le _, ?_⟩
      rw [cons_append, map_cons, halloc, map_eq_replicate_iff.2 hrest, length_append]
      rfl

/-- **Every operation after a failed one fails exactly if the builder was not empty** when that one
failed: the failure is remembered as a length without data.
[crypto/asn1.c:742-846] -/
theorem asn1_builder_error_permanent (before : List BuilderCall) (failed : BuilderCall)
    (hfailed : CallFails (afterCalls {} before) failed) :
    (∀ later call, CallFails (afterCalls {} (before ++ failed :: later)) call) ↔
      (afterCalls {} before).len ≠ 0 := by
  have hafter : ∀ later, afterCalls {} (before ++ failed :: later) =
      afterCalls ⟨none, (afterCalls {} before).len⟩ later := by
    intro later
    rw [← builderCall_fails hfailed]
    exact run_append _ _ before (failed :: later)
  constructor
  · intro hall hempty
    refine hall [] (.wrap 0x30 true) ?_
    rw [hafter, hempty]
    rfl
  · intro hlen later call
    rw [CallFails, hafter, afterCalls_lost hlen, builderCall_lost hlen]
    exact nofun

/-- The second allocation fails, and so do the operations that could allocate again. -/
theorem asn1_builder_error_permanent_second :
    CallFails (afterCalls {} [.prepend 0x04 [1] true, .wrap 0x30 false, .prependRaw [2] true])
      (.wrap 0x30 true) :=
  (asn1_builder_error_permanent [.prepend 0x04 [1] true] (.wrap 0x30 false)
    (by unfold CallFails; decide)).2 (by decide) [.prependRaw [2] true] _

/-- The first object cannot be allocated, and the last operation succeeds without it. -/
theorem asn1_builder_error_forgotten :
    CallFails {} (.prepend 0x02 [7] false) ∧
      ¬ CallFails (afterCalls {} [.prepend 0x02 [7] false]) (.wrap 0x30 true) := by
  unfold CallFails
  decide

end Ipxe.Analysis
