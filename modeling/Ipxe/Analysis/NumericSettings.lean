import Ipxe.Interface.SettingsHistory

/-!
# Numeric settings

A numeric setting is fetched into an `unsigned long`, but its bytes are then taken by the length of
the setting.  Of a longer value at most the first bytes have been fetched.
-/

namespace Ipxe.Analysis

open Library Model Interface List

variable {arch : Platform}

/-- The buffer that a value is fetched to. -/
def fetchedBuffer (data : Bytes) (len : ℕ) : Bytes :=
  data.take len ++ List.replicate (len - data.length) 0

def fetchedValue (len : ℕ) : Option Bytes → Except Errno (ℕ × Bytes)
  | none => .error .enoent
  | some data => .ok (data.length, fetchedBuffer data len)

mutual

/-- **Fetching a setting** finds the stored value. -/
theorem fetchSetting_eq (len : ℕ) (setting : Setting) : (settings : Settings) →
    fetchSetting settings setting len = fetchedValue len (storedValue settings setting)
  | .block generics children => by
    have hchildren := fetchChildren_eq len setting children
    unfold fetchSetting storedValue genericSettingsFetch
    cases findGenericSetting generics setting with
    | none => exact hchildren
    | some generic =>
      have hroom : len - min len generic.data.length = len - generic.data.length := by omega
      simp only [length_take, hroom]
      rfl

theorem fetchChildren_eq (len : ℕ) (setting : Setting) : (children : List Settings) →
    fetchChildren children setting len = fetchedValue len (storedChild children setting)
  | [] => by
    rfl
  | child :: children => by
    have hchild := fetchSetting_eq len setting child
    have hchildren := fetchChildren_eq len setting children
    unfold fetchChildren storedChild
    rw [hchild]
    cases storedValue child setting with
    | none => exact hchildren
    | some data => rfl

end

section

variable {len : ℕ} {pad : UInt8}

/-- **A value that fits** is read to its end, and no byte of it is padding. -/
theorem numericSettingLoop_of_fits (hfits : len ≤ sizeofLong arch) (i : ℕ)
    (value : BitVec arch.sizeBits) (bytes : Bytes) :
    numericSettingLoop arch len pad i value bytes =
      ⟨.ok len, bytes.foldl pushOctet value, i + bytes.length⟩ := by
  induction bytes generalizing i value with
  | nil => rfl
  | cons byte bytes ih =>
    have hunchecked : ¬(i + sizeofLong arch < len ∧ byte ≠ pad) := by
      rintro ⟨hlt, -⟩
      omega
    unfold numericSettingLoop
    rw [if_neg hunchecked, ih, foldl_cons, length_cons, add_right_comm, add_assoc]

theorem numericSettingLoop_cases (i : ℕ) (value : BitVec arch.sizeBits) (bytes : Bytes) :
    (numericSettingLoop arch len pad i value bytes).read = i + bytes.length ∨
      (numericSettingLoop arch len pad i value bytes).rc = .error .erange ∧
        ∃ before byte, byte ≠ pad ∧
          (numericSettingLoop arch len pad i value bytes).value = pushOctet before byte := by
  induction bytes generalizing i value with
  | nil => exact .inl rfl
  | cons byte bytes ih =>
    unfold numericSettingLoop
    split_ifs with hcheck
    · exact .inr ⟨rfl, value, byte, hcheck.2, rfl⟩
    · rw [length_cons, add_comm bytes.length, ← add_assoc]
      exact ih _ _

end

theorem sizeBits_eq (arch : Platform) : arch.sizeBits = 8 * sizeofLong arch := by
  cases arch <;> rfl

section

variable {raw : ℕ → UInt8} {stored : Bytes}

theorem negative_eq (hraw : (range stored.length).map raw = stored) :
    (decide (stored.length ≠ 0 ∧ 0x80 ≤ raw 0) : Bool) = octetsNegative stored := by
  cases stored with
  | nil => rfl
  | cons first rest =>
    have hfirst : raw 0 = first := by
      rw [length_cons, range_succ_eq_map] at hraw
      exact (List.cons.inj hraw).1
    rw [hfirst]
    exact decide_eq_decide.2 (and_iff_right (Nat.succ_ne_zero _))

variable (hfits : stored.length ≤ sizeofLong arch)

include hfits

/-- **A value that fits** is shifted into a word of its sign. -/
theorem numericSettingValue_of_fits (hraw : (range stored.length).map raw = stored)
    (isSigned : Bool) :
    numericSettingValue arch isSigned raw stored.length =
      ⟨.ok stored.length, BitVec.ofInt arch.sizeBits
        (if isSigned then signedOctets stored else octetsValue stored), stored.length⟩ := by
  have hones : (-1 : BitVec arch.sizeBits) = BitVec.ofInt arch.sizeBits (-1) := by
    rw [BitVec.ofInt_neg]
    rfl
  have hzero : (0 : BitVec arch.sizeBits) = BitVec.ofInt arch.sizeBits 0 := rfl
  unfold numericSettingValue
  simp only [hraw, negative_eq hraw, numericSettingLoop_of_fits hfits, zero_add]
  unfold signedOctets
  cases isSigned with
  | false =>
    rw [if_neg (by simp), hzero, foldl_pushOctet_ofInt, zero_mul, zero_add]
    rfl
  | true =>
    cases octetsNegative stored with
    | false =>
      rw [if_neg (by simp), hzero, foldl_pushOctet_ofInt, zero_mul]
      simp
    | true =>
      rw [if_pos ⟨rfl, rfl⟩, hones, foldl_pushOctet_ofInt]
      simp only [if_true]
      ring_nf

theorem pow_length_le : 256 ^ stored.length ≤ 2 ^ arch.sizeBits := by
  rw [sizeBits_eq, pow_mul]
  exact Nat.pow_le_pow_right (by norm_num) hfits

theorem toInt_ofInt_signedOctets :
    (BitVec.ofInt arch.sizeBits (signedOctets stored)).toInt = signedOctets stored := by
  obtain ⟨hlow, hhigh⟩ := signedOctets_bounds stored
  have hpow := pow_length_le hfits
  zify at hpow
  rw [BitVec.toInt_ofInt]
  apply Int.bmod_eq_of_le
  · push_cast
    omega
  · push_cast
    omega

theorem toNat_ofInt_octetsValue :
    (BitVec.ofInt arch.sizeBits (octetsValue stored)).toNat = octetsValue stored := by
  have hlt := octetsValue_lt stored
  rw [BitVec.ofInt_natCast, BitVec.toNat_ofNat, Nat.mod_eq_of_lt (hlt.trans_le (pow_length_le hfits))]

end

/-! ## Fetching -/

section

variable {settings : Settings} {setting : Setting} {stored : Bytes}

/-- The memory that the bytes of a value are taken from. -/
def numericRaw (arch : Platform) (beyond : ℕ → UInt8) (stored : Bytes) (i : ℕ) : UInt8 :=
  if h : i < (fetchedBuffer stored (sizeofLong arch)).length then
    (fetchedBuffer stored (sizeofLong arch))[i]
  else beyond (i - (fetchedBuffer stored (sizeofLong arch)).length)

theorem fetchNumericSetting_eq (hstored : storedValue settings setting = some stored)
    (beyond : ℕ → UInt8) (isSigned : Bool) :
    fetchNumericSetting arch beyond settings setting isSigned =
      numericSettingValue arch isSigned (numericRaw arch beyond stored) stored.length := by
  unfold fetchNumericSetting fetchRawSetting
  rw [fetchSetting_eq, hstored]
  rfl

theorem numericRaw_of_fits (hfits : stored.length ≤ sizeofLong arch) (beyond : ℕ → UInt8) :
    (range stored.length).map (numericRaw arch beyond stored) = stored := by
  apply ext_getElem
  · rw [length_map, length_range]
  · intro i hi hi'
    have hbuffer : i < (fetchedBuffer stored (sizeofLong arch)).length := by
      unfold fetchedBuffer
      rw [length_append, length_take]
      omega
    rw [getElem_map, getElem_range, numericRaw, dif_pos hbuffer]
    simp only [fetchedBuffer, getElem_append, length_take, getElem_take]
    exact dif_pos (by omega)

theorem fetchUintSetting_cases (hstored : storedValue settings setting = some stored)
    (beyond : ℕ → UInt8) :
    (fetchUintSetting arch beyond settings setting).read = stored.length ∨
      (fetchUintSetting arch beyond settings setting).rc = .error .erange ∧
        fetchUintzSetting arch beyond settings setting ≠ 0 := by
  have hcases := @numericSettingLoop_cases arch stored.length 0 0 0
    ((range stored.length).map (numericRaw arch beyond stored))
  rw [length_map, length_range, zero_add] at hcases
  have hvalue : fetchNumericSetting arch beyond settings setting false =
      numericSettingLoop arch stored.length 0 0 0
        ((range stored.length).map (numericRaw arch beyond stored)) := by
    rw [fetchNumericSetting_eq hstored]
    simp [numericSettingValue]
  unfold fetchUintSetting fetchUintzSetting
  rw [hvalue]
  refine hcases.imp_right ?_
  rintro ⟨hrc, before, byte, hbyte, hpushed⟩
  refine ⟨hrc, fun hzero => hbyte ?_⟩
  have hlow := pushOctet_mod (show 8 ≤ arch.sizeBits by cases arch <;> decide) before byte
  rw [← hpushed, hzero] at hlow
  exact UInt8.toNat_inj.1 hlow.symm

end

/-- **Numeric settings.**  The value of a setting is returned exactly or its range is an error
that leaves zero, and no more bytes are read than have been fetched, exactly if it fits an
`unsigned long`.
[core/settings.c:966-1074] -/
theorem numeric_setting_exact (arch : Platform) (beyond : ℕ → UInt8) (settings : Settings)
    (setting : Setting) (stored : Bytes)
    (hstored : storedValue settings setting = some stored) :
    (((fetchIntSetting arch beyond settings setting).rc = .error .erange ∧
          fetchIntzSetting arch beyond settings setting = 0 ∨
        (fetchIntSetting arch beyond settings setting).rc = .ok stored.length ∧
          (fetchIntSetting arch beyond settings setting).value.toInt = signedOctets stored ∧
          fetchIntzSetting arch beyond settings setting = signedOctets stored) ∧
      ((fetchUintSetting arch beyond settings setting).rc = .error .erange ∧
          fetchUintzSetting arch beyond settings setting = 0 ∨
        (fetchUintSetting arch beyond settings setting).rc = .ok stored.length ∧
          (fetchUintSetting arch beyond settings setting).value.toNat = octetsValue stored ∧
          fetchUintzSetting arch beyond settings setting = octetsValue stored) ∧
      (fetchIntSetting arch beyond settings setting).read ≤ min stored.length (sizeofLong arch) ∧
      (fetchUintSetting arch beyond settings setting).read ≤ min stored.length (sizeofLong arch)) ↔
    stored.length ≤ sizeofLong arch := by
  constructor
  · rintro ⟨-, huint, -, hread⟩
    rcases fetchUintSetting_cases hstored beyond with hall | ⟨hrc, hzero⟩
    · rw [hall] at hread
      exact hread.trans (min_le_right _ _)
    · rcases huint with ⟨-, hz⟩ | ⟨hok, -⟩
      · exact absurd hz hzero
      · rw [hrc] at hok
        cases hok
  · intro hfits
    have hraw := numericRaw_of_fits hfits beyond
    have hsigned : fetchNumericSetting arch beyond settings setting true =
        ⟨.ok stored.length, BitVec.ofInt arch.sizeBits (signedOctets stored), stored.length⟩ := by
      rw [fetchNumericSetting_eq hstored, numericSettingValue_of_fits hfits hraw, if_pos rfl]
    have hunsigned : fetchNumericSetting arch beyond settings setting false =
        ⟨.ok stored.length, BitVec.ofInt arch.sizeBits (octetsValue stored), stored.length⟩ := by
      rw [fetchNumericSetting_eq hstored, numericSettingValue_of_fits hfits hraw,
        if_neg Bool.false_ne_true]
    unfold fetchIntSetting fetchIntzSetting fetchUintSetting fetchUintzSetting
    rw [hsigned, hunsigned]
    have hint := toInt_ofInt_signedOctets hfits
    have hnat := toNat_ofInt_octetsValue hfits
    exact ⟨.inr ⟨rfl, hint, hint⟩, .inr ⟨rfl, hnat, hnat⟩, le_min le_rfl hfits, le_min le_rfl hfits⟩

def priorityBlock : Settings := .block [⟨{ name := [0x70], tag := 1 }, [0xff, 0xfe]⟩] []

theorem numeric_setting_exact_priority :
    fetchIntzSetting .x64 (fun _ => 0) priorityBlock { tag := 1 } = signedOctets [0xff, 0xfe] ∧
    fetchUintzSetting .x64 (fun _ => 0) priorityBlock { tag := 1 } = octetsValue [0xff, 0xfe] ∧
    (fetchIntSetting .x64 (fun _ => 0) priorityBlock { tag := 1 }).read ≤ 2 := by
  obtain ⟨hint, huint, hread, -⟩ := (numeric_setting_exact .x64 (fun _ => 0) priorityBlock
    { tag := 1 } [0xff, 0xfe] (by decide)).mpr (by decide)
  refine ⟨?_, ?_, hread⟩
  · rcases hint with ⟨herror, -⟩ | ⟨-, -, hvalue⟩
    · exact absurd herror (by decide)
    · exact hvalue
  · rcases huint with ⟨herror, -⟩ | ⟨-, -, hvalue⟩
    · exact absurd herror (by decide)
    · exact hvalue

/-- Nine bytes: one that is no padding leaves itself behind the error, and padding makes the ninth
byte be read, which has not been fetched. -/
theorem numeric_setting_exact_nine :
    ((fetchUintSetting .x64 (fun _ => 0) (.block [⟨{ tag := 1 }, [1, 0, 0, 0, 0, 0, 0, 0, 0]⟩] [])
        { tag := 1 }).rc = .error .erange ∧
      fetchUintzSetting .x64 (fun _ => 0) (.block [⟨{ tag := 1 }, [1, 0, 0, 0, 0, 0, 0, 0, 0]⟩] [])
        { tag := 1 } = 1) ∧
    ((fetchUintSetting .x64 (fun _ => 7) (.block [⟨{ tag := 1 }, [0, 0, 0, 0, 0, 0, 0, 0, 1]⟩] [])
        { tag := 1 }).read = 9 ∧
      fetchUintzSetting .x64 (fun _ => 7) (.block [⟨{ tag := 1 }, [0, 0, 0, 0, 0, 0, 0, 0, 1]⟩] [])
        { tag := 1 } = 7) := by
  decide

end Ipxe.Analysis
