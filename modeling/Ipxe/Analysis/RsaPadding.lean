import Ipxe.Analysis.RsaVerification
import Ipxe.Library.SignedOctets

/-!
# The padding of RSA encryption

The modulus has to be above the largest message, `00 02 FF .. FF 00`.  Below eleven octets, the
length of the longest plaintext goes round, and nothing is rejected.
-/

namespace Ipxe.Analysis

open Library Model List

/-- A public and a private key over one modulus, with the contexts made from them, where
textbook decryption inverts textbook encryption. -/
structure RsaKeyPair (arch : Platform) where
  publicKey : Asn1Cursor
  modulus : Asn1Cursor
  exponent : Asn1Cursor
  encrypting : RsaContext arch.elementBytes
  privateKey : Asn1Cursor
  privateModulus : Asn1Cursor
  privateExponent : Asn1Cursor
  decrypting : RsaContext arch.elementBytes
  parsed : rsaParseModExp publicKey = .ok (modulus, exponent)
  init : rsaInit arch.elementBytes publicKey = .ok encrypting
  privateParsed : rsaParseModExp privateKey = .ok (privateModulus, privateExponent)
  privateInit : rsaInit arch.elementBytes privateKey = .ok decrypting
  one_modulus : octetsValue privateModulus = octetsValue modulus
  modulus_pos : 0 < octetsValue modulus
  inverts : ∀ number < octetsValue modulus,
    (number ^ octetsValue exponent % octetsValue modulus) ^ octetsValue privateExponent %
      octetsValue modulus = number

/-- Plaintexts with room for eleven octets of padding come back, unless the random octets run
out, and all others are rejected. -/
def RsaRoundTrip {arch : Platform} (pair : RsaKeyPair arch) : Prop :=
  ∀ plaintext rc random,
    (plaintext.length + 11 ≤ pair.modulus.length →
      if pair.modulus.length ≤ plaintext.length + 3 + (random.filter (· ≠ 0)).length then
        ∃ ciphertext,
          rsaEncrypt arch pair.encrypting plaintext rc random = .returned (.ok ciphertext) ∧
            rsaDecrypt pair.decrypting ciphertext = .returned (.ok plaintext)
      else rsaEncrypt arch pair.encrypting plaintext rc random = .returned (.error rc)) ∧
    (pair.modulus.length < plaintext.length + 11 →
      rsaEncrypt arch pair.encrypting plaintext rc random = .returned (.error .erange))

/-- What is deciphered is a power modulo the modulus; a modulus of one has one number, and the
power with exponent zero is another. -/
theorem rsaCipher_mod {b : ℕ} (hb : 0 < b) {key modulus exponent : Asn1Cursor}
    {context : RsaContext b} {input : Bytes}
    (hkey : rsaParseModExp key = .ok (modulus, exponent)) (hinit : rsaInit b key = .ok context)
    (hinput : input.length = modulus.length) (hpos : 0 < octetsValue modulus) :
    ∃ output, rsaCipher context input = some output ∧ output.length = modulus.length ∧
      octetsValue output < max 2 (octetsValue modulus) ∧
      (1 < octetsValue modulus →
        octetsValue output = octetsValue input ^ octetsValue exponent % octetsValue modulus) := by
  obtain ⟨output, hcipher, hlength, hvalue⟩ := rsaCipher_eq hb hkey hinit hinput
  rw [if_neg hpos.ne'] at hvalue
  refine ⟨output, hcipher, hlength, ?_, fun hone => ?_⟩
  · have hlt := Nat.mod_lt (octetsValue input ^ octetsValue exponent) hpos
    split_ifs at hvalue <;> omega
  · split_ifs at hvalue with hexponent
    · rw [hvalue, hexponent, pow_zero, Nat.mod_eq_of_lt hone]
    · exact hvalue

/-- **A message is deciphered to itself modulo the modulus.** -/
theorem rsaCipher_twice {arch : Platform} (pair : RsaKeyPair arch) {message : Bytes}
    (hmessage : message.length = pair.modulus.length) :
    ∃ ciphertext, rsaCipher pair.encrypting message = some ciphertext ∧
      ciphertext.length = pair.modulus.length ∧
      (pair.privateModulus.length = pair.modulus.length →
        ∃ encoded, rsaCipher pair.decrypting ciphertext = some encoded ∧
          encoded.length = pair.modulus.length ∧
          octetsValue encoded < max 2 (octetsValue pair.modulus) ∧
          (1 < octetsValue pair.modulus →
            octetsValue encoded = octetsValue message % octetsValue pair.modulus)) := by
  have hb : 0 < arch.elementBytes := by cases arch <;> decide
  obtain ⟨ciphertext, hcipher, hlength, -, hvalue⟩ :=
    rsaCipher_mod hb pair.parsed pair.init hmessage pair.modulus_pos
  refine ⟨ciphertext, hcipher, hlength, fun hlengths => ?_⟩
  obtain ⟨encoded, hdecipher, hencoded, hbound, hback⟩ :=
    rsaCipher_mod hb pair.privateParsed pair.privateInit (hlength.trans hlengths.symm)
      (pair.one_modulus ▸ pair.modulus_pos)
  rw [pair.one_modulus] at hbound hback
  refine ⟨encoded, hdecipher, hencoded.trans hlengths, hbound, fun hone => ?_⟩
  rw [hback hone, hvalue hone, Nat.pow_mod (octetsValue message)]
  exact pair.inverts _ (Nat.mod_lt _ pair.modulus_pos)

/-- The octets `rsa_encrypt` enciphers. -/
def rsaMessage (randomNz plaintext : Bytes) : Bytes :=
  [0x00, 0x02] ++ randomNz ++ [0x00] ++ plaintext

section

variable (randomNz plaintext : Bytes)

theorem length_rsaMessage :
    (rsaMessage randomNz plaintext).length = randomNz.length + plaintext.length + 3 := by
  simp [rsaMessage]
  omega

theorem octetsValue_rsaMessage :
    octetsValue (rsaMessage randomNz plaintext) =
      2 * 256 ^ (randomNz.length + plaintext.length + 1) +
        (octetsValue randomNz * 256 ^ (plaintext.length + 1) + octetsValue plaintext) := by
  have hmessage : rsaMessage randomNz plaintext =
      0x00 :: 0x02 :: (randomNz ++ 0x00 :: plaintext) := by simp [rsaMessage]
  rw [hmessage, octetsValue_cons, octetsValue_cons, octetsValue_append, octetsValue_cons]
  simp [add_assoc]

theorem octetsValue_rsaMessage_le :
    octetsValue (rsaMessage randomNz plaintext) ≤
      3 * 256 ^ (randomNz.length + plaintext.length + 1) - 256 := by
  have hrandom := Nat.mul_le_mul_right (256 ^ (plaintext.length + 1)) (octetsValue_lt randomNz)
  have hplaintext := octetsValue_lt plaintext
  rw [← pow_add, ← add_assoc, Nat.succ_mul, pow_succ _ plaintext.length] at hrandom
  rw [octetsValue_rsaMessage, pow_succ _ plaintext.length]
  omega

end

theorem octetsValue_largest (len : ℕ) :
    octetsValue (rsaMessage (replicate len 0xff) []) = 3 * 256 ^ (len + 1) - 256 := by
  have hones : octetsValue (replicate len 0xff) + 1 = 256 ^ len := by
    induction len with
    | zero => rfl
    | succ len ih =>
      rw [replicate_succ, octetsValue_cons, length_replicate,
        show (0xff : UInt8).toNat = 255 from rfl]
      omega
  rw [octetsValue_rsaMessage, length_replicate, length_nil,
    show octetsValue [] = 0 from rfl, pow_succ]
  omega

theorem getRandomNz_eq (rc : Errno) (len : ℕ) (random : Bytes) :
    getRandomNz rc len random =
      if len ≤ (random.filter (· ≠ 0)).length then .ok ((random.filter (· ≠ 0)).take len)
      else .error rc := by
  induction random generalizing len with
  | nil => cases len <;> simp [getRandomNz]
  | cons byte random ih =>
    cases len with
    | zero => simp [getRandomNz]
    | succ len =>
      by_cases hzero : byte = 0
      · simp [getRandomNz, hzero, ih]
      · rw [getRandomNz, if_pos hzero, ih, filter_cons_of_pos (by simpa using hzero), length_cons]
        by_cases henough : len ≤ (random.filter (· ≠ 0)).length
        · rw [if_pos henough, if_pos (Nat.succ_le_succ henough)]
          rfl
        · rw [if_neg henough, if_neg (mt Nat.le_of_succ_le_succ henough)]
          rfl

section

variable {arch : Platform} {b : ℕ} {context : RsaContext b} {plaintext random : Bytes}
  {rc : Errno}

theorem rsaEncrypt_long (hint : context.maxLen < 2 ^ 31) (heleven : 11 ≤ context.maxLen)
    (hlong : context.maxLen < plaintext.length + 11) :
    rsaEncrypt arch context plaintext rc random = .returned (.error .erange) := by
  rw [rsaEncrypt, toSize_of_lt arch (by omega) (by omega), if_pos (by omega)]

/-- **The message of a plaintext that is not too long.** -/
theorem rsaEncrypt_eq (hint : context.maxLen < 2 ^ 31)
    (hfits : plaintext.length + 11 ≤ context.maxLen) :
    rsaEncrypt arch context plaintext rc random =
      if context.maxLen ≤ plaintext.length + 3 + (random.filter (· ≠ 0)).length then
        match rsaCipher context (rsaMessage
          ((random.filter (· ≠ 0)).take (context.maxLen - 3 - plaintext.length)) plaintext) with
        | none => .hangs
        | some ciphertext => .returned (.ok ciphertext)
      else .returned (.error rc) := by
  have hmax : arch.toSize ((context.maxLen : ℤ) - 11) = context.maxLen - 11 := by
    rw [toSize_of_lt arch (by omega) (by omega)]
    omega
  have hrandom : arch.toSize (((context.maxLen - 11 : ℕ) : ℤ) - plaintext.length + 8) =
      context.maxLen - 3 - plaintext.length := by
    rw [toSize_of_lt arch (by omega) (by omega)]
    omega
  simp only [rsaEncrypt]
  rw [hmax, hrandom, if_neg (by omega), if_neg (by omega), getRandomNz_eq]
  by_cases henough : context.maxLen ≤ plaintext.length + 3 + (random.filter (· ≠ 0)).length
  · rw [if_pos henough, if_pos (by omega)]
    rfl
  · rw [if_neg henough, if_neg (by omega)]

theorem rsaEncrypt_nil (hrc : rc ≠ .erange) :
    rsaEncrypt arch context [] rc [] ≠ .returned (.error .erange) := by
  simp only [rsaEncrypt]
  rw [if_neg (by simp)]
  split_ifs
  · exact fun h => by cases h
  · rw [getRandomNz_eq]
    split_ifs
    · dsimp only
      split <;> exact fun h => by cases h
    · exact fun h => hrc (by cases h; rfl)

end

theorem rsaDecrypt_rsaMessage {b : ℕ} {context : RsaContext b}
    {ciphertext randomNz plaintext : Bytes} (hlength : ciphertext.length = context.maxLen)
    (hcipher : rsaCipher context ciphertext = some (rsaMessage randomNz plaintext))
    (hnonzero : ∀ octet ∈ randomNz, octet ≠ 0) :
    rsaDecrypt context ciphertext = .returned (.ok plaintext) := by
  have hpadding : (randomNz ++ [0x00] ++ plaintext).dropWhile (· ≠ 0) = 0x00 :: plaintext := by
    rw [append_assoc, dropWhile_append_of_pos (by simpa using hnonzero)]
    simp
  rw [rsaDecrypt, if_neg (not_not.2 hlength), hcipher]
  simp only [rsaMessage, cons_append, nil_append, ne_eq, not_true, or_self, if_false]
  rw [hpadding]

theorem rsaDecrypt_small {b : ℕ} {context : RsaContext b} {ciphertext encoded : Bytes}
    (hlength : ciphertext.length = context.maxLen)
    (hcipher : rsaCipher context ciphertext = some encoded) {len : ℕ}
    (hencoded : encoded.length = len + 2) (hsmall : octetsValue encoded < 2 * 256 ^ len) :
    rsaDecrypt context ciphertext = .returned (.error .einval) := by
  obtain ⟨first, second, rest, rfl⟩ : ∃ first second rest, encoded = first :: second :: rest := by
    match encoded, hencoded with
    | first :: second :: rest, _ => exact ⟨first, second, rest, rfl⟩
  rw [rsaDecrypt, if_neg (not_not.2 hlength), hcipher]
  refine if_pos ?_
  by_contra hboth
  push Not at hboth
  obtain ⟨rfl, rfl⟩ := hboth
  have hrest : rest.length = len := by simpa using hencoded
  rw [octetsValue_cons, octetsValue_cons, hrest] at hsmall
  simp at hsmall

/-- **Plaintexts come back, and longer ones are rejected, exactly** where both keys write the
modulus with as many octets, at least eleven, and the modulus is above the largest message. -/
theorem rsa_padding_round_trip (arch : Platform) (pair : RsaKeyPair arch) :
    RsaRoundTrip pair ↔
      11 ≤ pair.modulus.length ∧ pair.privateModulus.length = pair.modulus.length ∧
        3 * 256 ^ (pair.modulus.length - 2) - 256 < octetsValue pair.modulus := by
  obtain ⟨⟨-, hint⟩, -⟩ := length_of_rsaParseModExp pair.parsed
  have hmax := rsaInit_maxLen pair.parsed pair.init
  have hprivate := rsaInit_maxLen pair.privateParsed pair.privateInit
  rw [← hmax] at hint
  constructor
  · intro htrip
    have heleven : 11 ≤ pair.modulus.length := by
      by_contra hshort
      exact rsaEncrypt_nil (by decide) ((htrip [] .einval []).2 (by simp; omega))
    obtain ⟨len, hlen⟩ : ∃ len, pair.modulus.length = len + 3 :=
      ⟨_, (Nat.sub_add_cancel (by omega)).symm⟩
    -- the largest message, which is the one that does not come back
    have hfilter : (List.replicate len (0xff : UInt8)).filter (· ≠ 0) = List.replicate len 0xff :=
      filter_eq_self.mpr fun octet hoctet => by
        rw [eq_of_mem_replicate hoctet]
        rfl
    have hlargest := (htrip [] .einval (List.replicate len 0xff)).1 (by simp; omega)
    rw [hfilter, length_replicate, if_pos (by omega), rsaEncrypt_eq hint (by simp; omega), hfilter,
      length_replicate, length_nil, if_pos (by omega), hmax, hlen] at hlargest
    obtain ⟨returned, hencrypt, hdecrypt⟩ := hlargest
    obtain ⟨ciphertext, hcipher, hlength, htwice⟩ := @rsaCipher_twice arch pair
      (rsaMessage (List.replicate len 0xff) []) (by simp [length_rsaMessage, hlen])
    rw [take_of_length_le (by simp), hcipher] at hencrypt
    cases hencrypt
    have hlengths : pair.privateModulus.length = pair.modulus.length := by
      by_contra hne
      rw [rsaDecrypt, if_pos (by omega)] at hdecrypt
      cases hdecrypt
    by_contra hsmall
    obtain ⟨encoded, hdecipher, hencoded, hbound, hmod⟩ := htwice hlengths
    have hbelow : octetsValue encoded < 2 * 256 ^ (len + 1) := by
      rw [hlen, show len + 3 - 2 = len + 1 from rfl] at hsmall
      have hpos := Nat.one_le_pow (len + 1) 256 (by norm_num)
      by_cases hbelow : octetsValue pair.modulus ≤ 2 * 256 ^ (len + 1)
      · omega
      · rw [hmod (by omega), octetsValue_largest, Nat.mod_eq_sub_mod (by omega)]
        exact (Nat.mod_le _ _).trans_lt (by omega)
    rw [rsaDecrypt_small (by omega) hdecipher (hencoded.trans hlen) hbelow] at hdecrypt
    cases hdecrypt
  · rintro ⟨heleven, hlengths, hlarge⟩ plaintext rc random
    refine ⟨fun hfits => ?_, fun hlong => rsaEncrypt_long hint (by omega) (by omega)⟩
    rw [rsaEncrypt_eq hint (by omega), hmax]
    split_ifs with henough
    swap
    · rfl
    obtain ⟨randomNz, hrandomNz⟩ : ∃ randomNz, randomNz =
      (random.filter (· ≠ 0)).take (pair.modulus.length - 3 - plaintext.length) := ⟨_, rfl⟩
    have hcount : randomNz.length = pair.modulus.length - 3 - plaintext.length := by
      rw [hrandomNz, length_take]
      omega
    have hnonzero : ∀ octet ∈ randomNz, octet ≠ 0 := by
      intro octet hoctet
      rw [hrandomNz] at hoctet
      simpa using (mem_filter.mp (mem_of_mem_take hoctet)).2
    have hmessage : (rsaMessage randomNz plaintext).length = pair.modulus.length := by
      rw [length_rsaMessage]
      omega
    obtain ⟨ciphertext, hcipher, hlength, htwice⟩ := rsaCipher_twice pair hmessage
    obtain ⟨encoded, hdecipher, hencoded, -, hmod⟩ := htwice hlengths
    clear htwice
    have hvalue := octetsValue_rsaMessage_le randomNz plaintext
    rw [show randomNz.length + plaintext.length + 1 = pair.modulus.length - 2 by omega] at hvalue
    have hsame : encoded = rsaMessage randomNz plaintext := by
      refine octetsValue_injective (hencoded.trans hmessage.symm) ?_
      have hpos := Nat.one_le_pow (pair.modulus.length - 2 - 1) 256 (by norm_num)
      rw [hmod ?_, Nat.mod_eq_of_lt (hvalue.trans_lt hlarge)]
      rw [show pair.modulus.length - 2 = pair.modulus.length - 2 - 1 + 1 by omega]
        at hlarge
      omega
    rw [← hrandomNz, hcipher]
    exact ⟨ciphertext, rfl, rsaDecrypt_rsaMessage (by omega) (hsame ▸ hdecipher) hnonzero⟩

/-- A key with a modulus and the exponent one. -/
def identityKey (modulus : Bytes) : Asn1Cursor :=
  let numbers := [0x02, UInt8.ofNat modulus.length] ++ modulus ++ [0x02, 0x01, 0x01]
  let bits := [0x03, UInt8.ofNat (numbers.length + 3), 0x00, 0x30, UInt8.ofNat numbers.length]
  [0x30, UInt8.ofNat (numbers.length + 7), 0x30, 0x00] ++ bits ++ numbers

/-- The pair of such a key with itself. -/
def identityPair (arch : Platform) (modulus : Bytes)
    (hparsed : rsaParseModExp (identityKey modulus) = .ok (modulus, [0x01]))
    (hpos : 0 < octetsValue modulus) : RsaKeyPair arch where
  publicKey := identityKey modulus
  modulus := modulus
  exponent := [0x01]
  encrypting := _
  privateKey := identityKey modulus
  privateModulus := modulus
  privateExponent := [0x01]
  decrypting := _
  parsed := hparsed
  init := by rw [rsaInit, hparsed]; rfl
  privateParsed := hparsed
  privateInit := by rw [rsaInit, hparsed]; rfl
  one_modulus := rfl
  modulus_pos := hpos
  inverts := fun number h => by
    rw [show octetsValue [0x01] = 1 from rfl, Nat.pow_one, Nat.pow_one, Nat.mod_mod,
      Nat.mod_eq_of_lt h]

def eightOctetPair : RsaKeyPair .x64 :=
  identityPair .x64 [0x80, 0x00, 0x00, 0x00, 0x00, 0x00, 0x00, 0x01] (by decide +kernel) (by decide)

/-- Under a modulus of eight octets the empty plaintext, which is three octets too long, is
encrypted with five octets of padding. -/
theorem rsa_padding_short_modulus :
    rsaEncrypt .x64 eightOctetPair.encrypting [] .einval [1, 2, 3, 4, 5] =
        .returned (.ok [0x00, 0x02, 1, 2, 3, 4, 5, 0x00]) ∧ ¬RsaRoundTrip eightOctetPair := by
  have hencrypt : rsaEncrypt .x64 eightOctetPair.encrypting [] .einval [1, 2, 3, 4, 5] =
      .returned (.ok [0x00, 0x02, 1, 2, 3, 4, 5, 0x00]) := by decide +kernel
  refine ⟨hencrypt, fun htrip => ?_⟩
  have hrejected := (htrip [] .einval [1, 2, 3, 4, 5]).2 (by decide)
  rw [hencrypt] at hrejected
  cases hrejected

end Ipxe.Analysis
