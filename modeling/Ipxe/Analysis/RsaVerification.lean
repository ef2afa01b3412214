import Ipxe.Analysis.Asn1Objects
import Ipxe.Analysis.ModularExponentiation
import Ipxe.Interface.Pkcs1
import Ipxe.Library.Procedure
import Ipxe.Model.Rsa

/-!
# Verification of RSA signatures

Below eleven octets of modulus the length of the padding goes round and it is written behind the
buffer.  With a modulus of zero, powers are cut off at its length.
-/

namespace Ipxe.Analysis

open Library Model Interface List

variable {b : ℕ} {key modulus exponent : Asn1Cursor} {digest : DigestAlgorithm}
  {digestinfo value : Bytes}

theorem length_bigintElements (b size : ℕ) (bytes : Bytes) :
    (bigintElements b size bytes).length = size := by
  induction size generalizing bytes with
  | zero => rfl
  | succ size ih => rw [bigintElements, length_cons, ih]

theorem wordsValue_bigintElements (size : ℕ) {bytes : Bytes} (hlength : bytes.length ≤ b * size) :
    wordsValue (bigintElements b size bytes) = Nat.ofDigits 256 (bytes.map UInt8.toNat) := by
  induction size generalizing bytes with
  | zero =>
    rw [mul_zero, Nat.le_zero, length_eq_zero_iff] at hlength
    rw [hlength]
    rfl
  | succ size ih =>
    have hbase : (2 : ℕ) ^ (8 * b) = 256 ^ b := by rw [Nat.pow_mul]
    have hlow : Nat.ofDigits 256 ((bytes.take b).map UInt8.toNat) < 256 ^ b := by
      have hlt := Nat.ofDigits_lt_base_pow_length (by norm_num) (octets_lt (bytes.take b))
      refine hlt.trans_le (Nat.pow_le_pow_right (by norm_num) ?_)
      rw [length_map]
      exact length_take_le b bytes
    have hsplit : Nat.ofDigits 256 (bytes.map UInt8.toNat) =
        Nat.ofDigits 256 ((bytes.take b).map UInt8.toNat) +
          256 ^ b * Nat.ofDigits 256 ((bytes.drop b).map UInt8.toNat) := by
      rcases le_total b bytes.length with hlong | hshort
      · conv_lhs => rw [← take_append_drop b bytes]
        rw [map_append, Nat.ofDigits_append, length_map, length_take_of_le hlong]
      · rw [take_of_length_le hshort, drop_of_length_le hshort]
        simp
    rw [Nat.mul_succ] at hlength
    rw [bigintElements, wordsValue_cons, ih (by rw [length_drop]; omega),
      BitVec.toNat_ofNat, hbase, Nat.mod_eq_of_lt hlow, hsplit]

theorem wordsValue_bigintInit {b size : ℕ} {data : Bytes} (hlength : data.length ≤ b * size) :
    wordsValue (bigintInit b size data) = octetsValue data :=
  wordsValue_bigintElements size (by rwa [length_reverse])

theorem ofDigits_octets (b x : ℕ) :
    Nat.ofDigits 256 ((range b).map fun i => (UInt8.ofNat (x / 256 ^ i)).toNat) = x % 256 ^ b := by
  induction b generalizing x with
  | zero => simp [Nat.mod_one]
  | succ b ih =>
    have hshift : (fun i => (UInt8.ofNat (x / 256 ^ i)).toNat) ∘ Nat.succ =
        fun i => (UInt8.ofNat (x / 256 / 256 ^ i)).toNat := by
      funext i
      simp only [Function.comp_apply]
      rw [pow_succ, mul_comm (256 ^ i), Nat.div_div_eq_div_mul]
    rw [range_succ_eq_map, map_cons, map_map, hshift, Nat.ofDigits_cons, ih,
      pow_zero, Nat.div_one, UInt8.toNat_ofNat', Nat.pow_succ' (n := b), Nat.mod_mul]

theorem length_elementOctets (value : Bigint (8 * b)) :
    (value.flatMap fun element =>
      (range b).map fun i => UInt8.ofNat (element.toNat / 256 ^ i)).length =
      b * value.length := by
  induction value with
  | nil => rfl
  | cons element value ih =>
    rw [flatMap_cons, length_append, ih, length_map, length_range, length_cons]
    ring

theorem ofDigits_elementOctets (value : Bigint (8 * b)) :
    Nat.ofDigits 256 ((value.flatMap fun element =>
      (range b).map fun i => UInt8.ofNat (element.toNat / 256 ^ i)).map UInt8.toNat) =
      wordsValue value := by
  have hbase : (2 : ℕ) ^ (8 * b) = 256 ^ b := by rw [Nat.pow_mul]
  induction value with
  | nil => rfl
  | cons element value ih =>
    have hlt := element.isLt
    rw [hbase] at hlt
    rw [flatMap_cons, map_append, Nat.ofDigits_append, ih, map_map,
      length_map, length_range, wordsValue_cons, hbase]
    congr 1
    exact (ofDigits_octets b element.toNat).trans (Nat.mod_eq_of_lt hlt)

theorem length_bigintDone {len : ℕ} {value : Bigint (8 * b)} (hlen : len ≤ b * value.length) :
    (bigintDone value len).length = len := by
  rw [bigintDone, length_reverse, length_take_of_le]
  rw [length_elementOctets]
  exact hlen

theorem octetsValue_bigintDone (value : Bigint (8 * b)) (len : ℕ) :
    octetsValue (bigintDone value len) = wordsValue value % 256 ^ len := by
  rw [octetsValue, bigintDone, reverse_reverse, map_take,
    ← Nat.ofDigits_mod_pow_eq_ofDigits_take len (by norm_num) _ (octets_lt _),
    ofDigits_elementOctets]

theorem length_asn1Enter_lt (cursor : Asn1Cursor) (type : Asn1Type) :
    (asn1Enter cursor type).2.length < 2 ^ 31 := by
  rw [asn1Enter]
  split
  · norm_num
  · next len body hstart =>
      obtain ⟨-, -, hle, hlt⟩ := asn1Start_ok hstart
      simp only [length_take_of_le hle]
      exact hlt

theorem length_of_rsaParseInteger {raw integer : Asn1Cursor}
    (h : rsaParseInteger raw = .ok integer) : 0 < integer.length ∧ integer.length < 2 ^ 31 := by
  have hlt := length_asn1Enter_lt raw asn1TagInteger
  simp only [rsaParseInteger] at h
  generalize (asn1Enter raw asn1TagInteger).2 = entered at h hlt
  have hstripped : (if 1 < entered.length ∧ entered.head? = some 0 then entered.tail
      else entered).length < 2 ^ 31 := by
    split_ifs
    · rw [length_tail]
      omega
    · exact hlt
  generalize (if 1 < entered.length ∧ entered.head? = some 0 then entered.tail
    else entered) = stripped at h hstripped
  split_ifs at h with hempty
  cases h
  exact ⟨length_pos_iff.2 hempty, hstripped⟩

theorem length_of_rsaParseModExp (h : rsaParseModExp key = .ok (modulus, exponent)) :
    (0 < modulus.length ∧ modulus.length < 2 ^ 31) ∧
      0 < exponent.length ∧ exponent.length < 2 ^ 31 := by
  -- both kinds of key end by parsing two integers
  have hparsed : ∀ first second : Asn1Cursor,
      (do
        let modulus ← rsaParseInteger first
        let exponent ← rsaParseInteger second
        return (modulus, exponent)) = Except.ok (ε := Errno) (modulus, exponent) →
      (0 < modulus.length ∧ modulus.length < 2 ^ 31) ∧
        0 < exponent.length ∧ exponent.length < 2 ^ 31 := by
    intro first second hboth
    obtain ⟨m, hm, hrest⟩ := bind_succeeds_iff.1 hboth
    obtain ⟨e, he, hpair⟩ := bind_succeeds_iff.1 hrest
    cases hpair
    exact ⟨length_of_rsaParseInteger hm, length_of_rsaParseInteger he⟩
  rw [rsaParseModExp] at h
  split_ifs at h with hprivate
  · exact hparsed _ _ h
  · obtain ⟨bits, -, hrest⟩ := bind_succeeds_iff.1 h
    exact hparsed _ _ hrest

theorem length_le_bigintRequiredSize (hb : 0 < b) (len : ℕ) :
    len ≤ b * bigintRequiredSize b len := by
  have hdiv := Nat.div_add_mod (len + b - 1) b
  have hmod := Nat.mod_lt (len + b - 1) hb
  rw [bigintRequiredSize]
  omega

variable {context : RsaContext b} {signature : Bytes}

theorem rsaCipher_eq (hb : 0 < b)
    (hkey : rsaParseModExp key = .ok (modulus, exponent)) (hinit : rsaInit b key = .ok context)
    (hsignature : signature.length = modulus.length) :
    ∃ expected, rsaCipher context signature = some expected ∧
      expected.length = modulus.length ∧
      octetsValue expected = if octetsValue exponent = 0 then 1
        else octetsValue signature ^ octetsValue exponent %
          (if octetsValue modulus = 0 then 256 ^ modulus.length else octetsValue modulus) := by
  obtain ⟨⟨hmodulus, -⟩, -⟩ := length_of_rsaParseModExp hkey
  rw [rsaInit, hkey] at hinit
  cases hinit
  obtain ⟨size, hsize⟩ : ∃ size, size = bigintRequiredSize b modulus.length := ⟨_, rfl⟩
  have hfits : modulus.length ≤ b * size := hsize ▸ length_le_bigintRequiredSize hb _
  have hsizePos : 0 < size := Nat.pos_of_mul_pos_left (hmodulus.trans_le hfits)
  have hsizeLength : (bigintInit b size modulus).length = size := length_bigintElements _ _ _
  obtain ⟨result, hresult, hlength, hvalue⟩ := @bigintModExp_eq (8 * b)
    (bigintInit b size modulus) (by omega) (bigintInit b size signature)
    (bigintInit b (bigintRequiredSize b exponent.length) exponent)
    (by rw [hsizeLength]; exact length_bigintElements _ _ _) (by rw [hsizeLength]; exact hsizePos)
  rw [hsizeLength] at hlength
  rw [reducer, hsizeLength, wordsValue_bigintInit hfits,
    @wordsValue_bigintInit b size signature (by rw [hsignature]; exact hfits),
    wordsValue_bigintInit (length_le_bigintRequiredSize hb exponent.length)] at hvalue
  refine ⟨bigintDone result modulus.length, ?_, length_bigintDone (by rw [hlength]; exact hfits), ?_⟩
  · rw [rsaCipher]
    simp only [← hsize]
    rw [hresult]
    rfl
  · have hone : 1 < 256 ^ modulus.length := Nat.one_lt_pow hmodulus.ne' (by norm_num)
    rw [octetsValue_bigintDone, hvalue]
    split_ifs with hexponent hzero
    · exact Nat.mod_eq_of_lt hone
    · refine Nat.mod_mod_of_dvd _ ?_
      rw [mul_assoc, Nat.pow_mul]
      exact Nat.pow_dvd_pow _ hfits
    · refine Nat.mod_eq_of_lt (lt_trans (Nat.mod_lt _ (Nat.pos_of_ne_zero hzero)) ?_)
      exact octetsValue_lt modulus

variable (arch : Platform)

theorem toSize_of_lt {value : ℤ} (hpos : 0 ≤ value) (hlt : value < 2 ^ 32) :
    arch.toSize value = value.toNat := by
  have hsize : (2 : ℤ) ^ 32 ≤ ((2 ^ arch.sizeBits : ℕ) : ℤ) := by
    cases arch <;> simp [Platform.sizeBits]
  rw [Platform.toSize, Int.emod_eq_of_lt hpos (hlt.trans_le hsize)]

theorem toSize_neg (arch : Platform) {value : ℤ} (hneg : value < 0) (hgt : -2 ^ 32 ≤ value) :
    (arch.toSize value : ℤ) = 2 ^ arch.sizeBits + value := by
  have hsize : (2 : ℤ) ^ 32 ≤ 2 ^ arch.sizeBits := by
    cases arch <;> simp [Platform.sizeBits]
  rw [Platform.toSize, Int.toNat_of_nonneg (Int.emod_nonneg _ (by positivity)), Nat.cast_pow,
    Nat.cast_ofNat, ← Int.add_emod_left, Int.emod_eq_of_lt (by omega) (by omega)]

theorem digestInfo_of_rsaFindPrefix (hbegins : rsaFindPrefix digest = some digestinfo)
    (hvalue : value.length = digest.digestsize) :
    digestInfo digest value = some (digestinfo ++ value) ∧
      15 ≤ digestinfo.length ∧ digestinfo.length ≤ 19 ∧ digest.digestsize ≤ 64 := by
  cases digest <;> simp only [rsaFindPrefix, reduceCtorEq, Option.some.injEq] at hbegins <;>
    subst hbegins <;>
    simp [digestInfo, digestIdentifier, shortObject, rsaDigestinfoPrefix, oidNistHash, hvalue,
      DigestAlgorithm.digestsize, asn1TagSequence, asn1TagOid, asn1TagNull, asn1TagOctetString]

theorem digestInfo_of_no_prefix (hbegins : rsaFindPrefix digest = none) (value : Bytes) :
    digestInfo digest value = none := by
  cases digest <;> simp_all [rsaFindPrefix, digestInfo, digestIdentifier]

/-- **With a short modulus, the message does not fit its buffer.** -/
theorem rsaEncodeDigest_short {maxLen : ℕ}
    (hbegins : rsaFindPrefix digest = some digestinfo) (hvalue : value.length = digest.digestsize)
    (hshort : maxLen < 11) : rsaEncodeDigest arch maxLen digest value = .overrun := by
  obtain ⟨-, hlow, hhigh, hdigest⟩ := digestInfo_of_rsaFindPrefix hbegins hvalue
  have hsize : (2 : ℤ) ^ 32 ≤ 2 ^ arch.sizeBits := by
    cases arch <;> simp [Platform.sizeBits]
  have havailable := @toSize_neg arch ((maxLen : ℤ) - 11) (by omega) (by omega)
  rw [rsaEncodeDigest, hbegins]
  simp only
  generalize arch.toSize ((maxLen : ℤ) - 11) = available at havailable
  rw [if_neg (by omega), if_pos (by omega)]

/-- **Otherwise the encoder makes the block, or says that it does not fit.** -/
theorem rsaEncodeDigest_eq {maxLen : ℕ} (hlong : 11 ≤ maxLen)
    (hint : maxLen < 2 ^ 31) (hbegins : rsaFindPrefix digest = some digestinfo)
    (hvalue : value.length = digest.digestsize) :
    rsaEncodeDigest arch maxLen digest value =
      match pkcs1Block maxLen digest value with
      | none => .returned (.error .erange)
      | some block => .returned (.ok block) := by
  obtain ⟨hinfo, -⟩ := digestInfo_of_rsaFindPrefix hbegins hvalue
  have havailable : arch.toSize ((maxLen : ℤ) - 11) = maxLen - 11 := by
    rw [toSize_of_lt arch (by omega) (by omega)]
    omega
  have hlength : (digestinfo ++ value).length = digestinfo.length + digest.digestsize := by
    rw [length_append, hvalue]
  rw [rsaEncodeDigest, hbegins, pkcs1Block, hinfo]
  simp only [Option.bind_some, havailable, hlength]
  by_cases hfits : digestinfo.length + digest.digestsize + 11 ≤ maxLen
  · have hpad : arch.toSize (((maxLen - 11 : ℕ) : ℤ) -
        ((digestinfo.length + digest.digestsize : ℕ) : ℤ) + 8) =
        maxLen - (digestinfo.length + digest.digestsize) - 3 := by
      rw [toSize_of_lt arch (by omega) (by omega)]
      omega
    rw [if_neg (by omega), hpad, if_neg (by omega), if_pos hfits]
    simp
  · rw [if_pos (by omega), if_neg hfits]

theorem pkcs1Block_bounds {k : ℕ} {block : Bytes} (h : pkcs1Block k digest value = some block) :
    block.length = k ∧ 1 < octetsValue block := by
  obtain ⟨info, -, hinfo⟩ := Option.bind_eq_some_iff.1 h
  split_ifs at hinfo with hfits
  cases hinfo
  refine ⟨by simp; omega, ?_⟩
  rw [octetsValue_cons, octetsValue_cons, show (0x01 : UInt8).toNat = 1 from rfl,
    show (0x00 : UInt8).toNat = 0 from rfl, zero_mul, zero_add, one_mul]
  exact Nat.lt_add_right _ (Nat.one_lt_pow (by simp) (by norm_num))

/-! ## Verification -/

theorem rsaInit_maxLen
    (hkey : rsaParseModExp key = .ok (modulus, exponent)) (hinit : rsaInit b key = .ok context) :
    context.maxLen = modulus.length := by
  rw [rsaInit, hkey] at hinit
  cases hinit
  rfl

/-- **What decides on a signature** is the message that is encoded. -/
theorem rsaVerify_eq (hb : 0 < b)
    (hkey : rsaParseModExp key = .ok (modulus, exponent)) (hinit : rsaInit b key = .ok context)
    (hsignature : signature.length = modulus.length) (arch : Platform)
    (digest : DigestAlgorithm) (value : Bytes) :
    rsaVerify arch context digest value signature =
      match rsaEncodeDigest arch modulus.length digest value with
      | .hangs => .hangs
      | .overrun => .overrun
      | .returned (.error rc) => .returned (.error rc)
      | .returned (.ok block) =>
        .returned (if rsaCipher context signature = some block then .ok ()
          else .error .eaccesVerify) := by
  obtain ⟨expected, hcipher, -⟩ := rsaCipher_eq hb hkey hinit hsignature
  rw [rsaVerify, rsaInit_maxLen hkey hinit, if_neg (not_not.2 hsignature), hcipher]
  simp only [Option.some.injEq, eq_comm (a := expected)]
  cases rsaEncodeDigest arch modulus.length digest value with
  | hangs => rfl
  | overrun => rfl
  | returned result =>
    cases result with
    | error rc => rfl
    | ok block =>
      simp only
      split_ifs <;> rfl

/-- **Whether a signature is accepted.**  A power to the exponent zero is not reduced,
which no block can tell. -/
theorem rsaCipher_eq_some_block (hb : 0 < b) {block : Bytes}
    (hkey : rsaParseModExp key = .ok (modulus, exponent)) (hinit : rsaInit b key = .ok context)
    (hsignature : signature.length = modulus.length)
    (hblock : pkcs1Block modulus.length digest value = some block) :
    rsaCipher context signature = some block ↔
      octetsValue signature ^ octetsValue exponent %
        (if octetsValue modulus = 0 then 256 ^ modulus.length else octetsValue modulus) =
      octetsValue block := by
  obtain ⟨expected, hcipher, hlength, hexpected⟩ := rsaCipher_eq hb hkey hinit hsignature
  obtain ⟨hblockLength, hlarge⟩ := pkcs1Block_bounds hblock
  have hnumbers : expected = block ↔ octetsValue expected = octetsValue block :=
    ⟨congrArg octetsValue, octetsValue_injective (hlength.trans hblockLength.symm)⟩
  rw [hcipher, Option.some.injEq, hnumbers, hexpected]
  by_cases hzero : octetsValue exponent = 0
  · rw [if_pos hzero, hzero, pow_zero]
    have hle := Nat.mod_le 1
      (if octetsValue modulus = 0 then 256 ^ modulus.length else octetsValue modulus)
    exact ⟨fun h => absurd h (by omega), fun h => absurd h (by omega)⟩
  · rw [if_neg hzero]

/-- A verification that stays within its buffers, and accepts the signatures there are. -/
def DecidesSignature (outcome : RsaOutcome (Except Errno Unit)) (signs : Prop) : Prop :=
  ∃ rc, outcome = .returned rc ∧ (rc = .ok () ↔ signs)

theorem decidesSignature_error {rc : Errno} {signs : Prop} (hsigns : ¬signs) :
    DecidesSignature (.returned (.error rc)) signs :=
  ⟨_, rfl, (nomatch ·), fun h => absurd h hsigns⟩

theorem decidesSignature_ite {rc : Errno} {accepted signs : Prop} [Decidable accepted] :
    DecidesSignature (.returned (if accepted then .ok () else .error rc)) signs ↔
      (accepted ↔ signs) := by
  have hok : (if accepted then .ok () else .error rc) = (.ok () : Except Errno Unit) ↔ accepted := by
    split_ifs with haccepted
    · exact ⟨fun _ => haccepted, fun _ => rfl⟩
    · exact ⟨(nomatch ·), fun h => absurd h haccepted⟩
  constructor
  · rintro ⟨rc', hreturned, hdecides⟩
    cases hreturned
    exact hok.symm.trans hdecides
  · exact fun h => ⟨_, rfl, hok.trans h⟩

/-- **Signatures are accepted exactly** under every modulus of at least eleven octets that is
not zero.  Under a shorter one the padding is written behind the buffer, and under zero a
signature is accepted whose power ends in the block. -/
theorem rsa_verify_decides (arch : Platform) (key modulus exponent : Asn1Cursor)
    (context : RsaContext arch.elementBytes) (digest : DigestAlgorithm)
    (value signature : Bytes) (hkey : rsaParseModExp key = .ok (modulus, exponent))
    (hinit : rsaInit arch.elementBytes key = .ok context)
    (hvalue : value.length = digest.digestsize) :
    DecidesSignature (rsaVerify arch context digest value signature)
        (Signs modulus exponent digest value signature) ↔
      (signature.length = modulus.length → rsaFindPrefix digest ≠ none →
        11 ≤ modulus.length ∧
          (octetsValue modulus = 0 → ∀ block, pkcs1Block modulus.length digest value = some block →
            octetsValue signature ^ octetsValue exponent % 256 ^ modulus.length ≠
              octetsValue block)) := by
  have hb : 0 < arch.elementBytes := by cases arch <;> decide
  obtain ⟨⟨-, hint⟩, -⟩ := length_of_rsaParseModExp hkey
  by_cases hsignature : signature.length = modulus.length
  swap
  · refine ⟨fun _ h => absurd h hsignature, fun _ => ?_⟩
    rw [rsaVerify, rsaInit_maxLen hkey hinit, if_pos hsignature]
    exact decidesSignature_error fun h => hsignature h.1
  rw [rsaVerify_eq hb hkey hinit hsignature]
  cases hbegins : rsaFindPrefix digest with
  | none =>
    refine ⟨fun _ _ h => absurd rfl h, fun _ => ?_⟩
    rw [rsaEncodeDigest, hbegins]
    refine decidesSignature_error ?_
    rintro ⟨-, -, block, hblock, -⟩
    rw [pkcs1Block, digestInfo_of_no_prefix hbegins] at hblock
    cases hblock
  | some digestinfo =>
    by_cases hlong : 11 ≤ modulus.length
    swap
    · rw [rsaEncodeDigest_short arch hbegins hvalue (not_le.mp hlong)]
      refine ⟨?_, fun h => absurd (h hsignature (Option.some_ne_none _)).1 hlong⟩
      rintro ⟨rc, hreturned, -⟩
      cases hreturned
    rw [rsaEncodeDigest_eq arch hlong hint hbegins hvalue]
    cases hblock : pkcs1Block modulus.length digest value with
    | none =>
      refine ⟨fun _ _ _ => ⟨hlong, fun _ block h => nomatch h⟩, fun _ => ?_⟩
      refine decidesSignature_error ?_
      rintro ⟨-, -, block, hsome, -⟩
      rw [hblock] at hsome
      cases hsome
    | some block =>
      have hsigns : Signs modulus exponent digest value signature ↔ 0 < octetsValue modulus ∧
          octetsValue signature ^ octetsValue exponent % octetsValue modulus =
            octetsValue block := by
        rw [Signs, hblock]
        simp [hsignature]
      simp only
      rw [decidesSignature_ite, rsaCipher_eq_some_block hb hkey hinit hsignature hblock, hsigns]
      by_cases hzero : octetsValue modulus = 0
      · rw [if_pos hzero]
        constructor
        · rintro h - -
          refine ⟨hlong, fun _ block' hblock' haccepted => ?_⟩
          cases hblock'
          exact absurd hzero (h.mp haccepted).1.ne'
        · intro h
          have hrefused := (h hsignature (Option.some_ne_none _)).2 hzero block rfl
          exact ⟨fun haccepted => absurd haccepted hrefused, fun h => absurd hzero h.1.ne'⟩
      · rw [if_neg hzero]
        refine ⟨fun _ _ _ => ⟨hlong, fun h => absurd h hzero⟩, fun _ => ?_⟩
        exact ⟨fun haccepted => ⟨Nat.pos_of_ne_zero hzero, haccepted⟩, fun h => h.2⟩

/-- A modulus of 46 octets, for which there is a block of a SHA-1 value, and the exponent three. -/
def smallModulus : Bytes := 0x80 :: (List.replicate 44 0x00 ++ [0x01])

def smallKey : Asn1Cursor :=
  [0x30, 0x3a, 0x30, 0x00, 0x03, 0x36, 0x00, 0x30, 0x33, 0x02, 0x2e] ++ smallModulus ++
    [0x02, 0x01, 0x03]

theorem rsa_verify_decides_small :
    ∃ context, rsaInit Platform.x64.elementBytes smallKey = .ok context ∧
      (pkcs1Block 46 .sha1 (List.replicate 20 0xaa)).isSome ∧
      DecidesSignature
        (rsaVerify .x64 context .sha1 (List.replicate 20 0xaa) (List.replicate 46 0x55))
        (Signs smallModulus [0x03] .sha1 (List.replicate 20 0xaa) (List.replicate 46 0x55)) := by
  have hkey : rsaParseModExp smallKey = .ok (smallModulus, [0x03]) := by decide
  obtain ⟨context, hinit⟩ : ∃ context, rsaInit Platform.x64.elementBytes smallKey = .ok context := by
    rw [rsaInit, hkey]
    exact ⟨_, rfl⟩
  refine ⟨context, hinit, by decide, ?_⟩
  exact (rsa_verify_decides .x64 smallKey _ _ context .sha1 _ _ hkey hinit rfl).mpr
    fun _ _ => ⟨by decide, fun h => absurd h (by decide)⟩

/-- The modulus and the exponent three, of one octet each. -/
def oneOctetKey : Asn1Cursor :=
  [0x30, 0x0d, 0x30, 0x00, 0x03, 0x09, 0x00, 0x30, 0x06, 0x02, 0x01, 0x03, 0x02, 0x01, 0x03]

/-- **Under a modulus of one octet the message is written behind its buffer.** -/
theorem rsa_verify_overrun :
    ∃ context, rsaInit Platform.x64.elementBytes oneOctetKey = .ok context ∧
      rsaVerify .x64 context .sha1 (List.replicate 20 0xaa) [0x01] = .overrun := by
  have hkey : rsaParseModExp oneOctetKey = .ok ([0x03], [0x03]) := by decide
  obtain ⟨context, hinit⟩ : ∃ context,
      rsaInit Platform.x64.elementBytes oneOctetKey = .ok context := by
    rw [rsaInit, hkey]
    exact ⟨_, rfl⟩
  have hencode : rsaEncodeDigest .x64 [(0x03 : UInt8)].length .sha1 (List.replicate 20 0xaa) =
      .overrun := by decide
  have hsignature : [(0x01 : UInt8)].length = [(0x03 : UInt8)].length := rfl
  refine ⟨context, hinit, ?_⟩
  rw [rsaVerify_eq (by decide) hkey hinit hsignature, hencode]

end Ipxe.Analysis
