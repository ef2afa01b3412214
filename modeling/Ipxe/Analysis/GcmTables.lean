import Ipxe.Interface.GcmMode

/-!
# The multiplication tables

With the tables that `gcm_cache` makes, `gcm_multiply_key` computes the product in the field.  A
cache *serves* a context if its tables, should it be marked with its address, are those of its key.
-/

namespace Ipxe.Analysis.Gcm

open Interface Library Model BitVec

theorem forall_byte {P : UInt8 → Prop} (h : ∀ value : Fin 256, P (UInt8.ofBitVec (.ofFin value)))
    (byte : UInt8) : P byte := h byte.toBitVec.toFin

@[simp] theorem gcmMultiplyX_zero : gcmMultiplyX 0#128 = 0#128 := by decide

theorem gcmMultiplyX_xor (block block' : GcmBlock) :
    gcmMultiplyX (block ^^^ block') = gcmMultiplyX block ^^^ gcmMultiplyX block' := by
  have hpoly : ∀ bit bit' : Bool, (if (bit ^^ bit') then byteAt 0 gcmPoly else 0) =
      (if bit then byteAt 0 gcmPoly else 0) ^^^ if bit' then byteAt 0 gcmPoly else 0 := by decide
  unfold gcmMultiplyX
  rw [ushiftRight_xor_distrib, getLsbD_xor, hpoly]
  ac_rfl

theorem iterate_gcmMultiplyX_zero (count : ℕ) : gcmMultiplyX^[count] 0#128 = 0#128 := by
  induction count with
  | zero => rfl
  | succ count ih => rw [Function.iterate_succ_apply, gcmMultiplyX_zero, ih]

theorem iterate_gcmMultiplyX_xor (count : ℕ) (block block' : GcmBlock) :
    gcmMultiplyX^[count] (block ^^^ block') =
      gcmMultiplyX^[count] block ^^^ gcmMultiplyX^[count] block' := by
  induction count generalizing block block' with
  | zero => rfl
  | succ count ih => simp [gcmMultiplyX_xor, ih]

theorem iterate_gcmMultiplyX_shift {block : GcmBlock} (count : ℕ)
    (h : ∀ index < count, block.getLsbD index = false) :
    gcmMultiplyX^[count] block = block >>> count := by
  induction count with
  | zero => simp
  | succ count ih =>
    have hbit : (block >>> count).getLsbD 0 = false := by
      exact h _ (by omega)
    rw [Function.iterate_succ_apply', ih fun index hindex => h index (by omega)]
    unfold gcmMultiplyX
    rw [hbit, shiftRight_add]
    simp

theorem polyProduct_append (key : GcmBlock) (bits bits' : List Bool) :
    polyProduct key (bits ++ bits') =
      polyProduct key bits ^^^ gcmMultiplyX^[bits.length] (polyProduct key bits') := by
  induction bits with
  | nil => simp [polyProduct]
  | cons bit bits ih =>
    simp only [List.cons_append, polyProduct, ih, gcmMultiplyX_xor, List.length_cons,
      Function.iterate_succ_apply', BitVec.xor_assoc]

theorem polyProduct_concat_false (key : GcmBlock) (bits : List Bool) :
    polyProduct key (bits ++ [false]) = polyProduct key bits := by
  rw [polyProduct_append]
  simp [polyProduct, iterate_gcmMultiplyX_zero]

variable (byte : UInt8)

def byteBits : List Bool := (List.range 8).map byte.toBitVec.getMsbD

theorem byteBits_zero : byteBits 0 = List.replicate 8 false := by decide

theorem blockBits_eq (block : GcmBlock) : blockBits block = (blockBytes block).flatMap byteBits := by
  have hrange : List.range 128 =
      (List.range 16).flatMap fun i => (List.range 8).map fun j => 8 * i + j := by decide
  unfold blockBits blockBytes
  rw [hrange, List.map_flatMap, List.flatMap_map]
  apply List.flatMap_congr
  intro i hi
  rw [List.map_map]
  apply List.map_congr_left
  intro j hj
  rw [List.mem_range] at hi hj
  have hindex : 8 * (15 - i) + (8 - 1 - j) = 128 - 1 - (8 * i + j) := by omega
  have hinside : 8 * i + j < 128 := by omega
  have hbyte : 8 - 1 - j < 8 := by omega
  simp only [Function.comp_apply, blockByte, getMsbD_eq_getLsbD, getLsbD_extractLsb',
    hindex, hinside, hbyte, hj, decide_true, Bool.true_and]

/-! ## The tables -/

/-- The multiples of `x^128`, as the leftmost 16 bits. -/
def reducePoly : List Bool → UInt16
  | [] => 0
  | bit :: bits => (if bit then gcmPoly.toUInt16 <<< 8 else 0) ^^^ reducePoly bits >>> 1

theorem reducePoly_concat_false (bits : List Bool) :
    reducePoly (bits ++ [false]) = reducePoly bits := by
  induction bits with
  | nil => rfl
  | cons bit bits ih => simp [reducePoly, ih]

/-- What the tables are meant to hold. -/
def keyTables (key : GcmBlock) : GcmTables where
  mult byte := polyProduct key (byteBits byte)
  reduce byte := bswap16 (reducePoly (byteBits byte))

theorem getLsbD_bswap16 (value : UInt16) {index : ℕ} (hindex : index < 16) :
    (bswap16 value).toBitVec.getLsbD index = value.toBitVec.getLsbD ((index + 8) % 16) := by
  unfold bswap16
  interval_cases index <;> simp

theorem bswap16_bswap16 (value : UInt16) : bswap16 (bswap16 value) = value := by
  apply UInt16.toBitVec_inj.1
  apply eq_of_getLsbD_eq
  intro index hindex
  have hback : ((index + 8) % 16 + 8) % 16 = index := by omega
  rw [getLsbD_bswap16 _ hindex, getLsbD_bswap16 _ (Nat.mod_lt _ (by decide)), hback]

theorem bswap16_xor (value value' : UInt16) :
    bswap16 (value ^^^ value') = bswap16 value ^^^ bswap16 value' := by
  apply UInt16.toBitVec_inj.1
  apply eq_of_getLsbD_eq
  intro index hindex
  simp only [getLsbD_bswap16 _ hindex, UInt16.toBitVec_xor, getLsbD_xor]

theorem byteBits_odd : ∀ byte : UInt8, byte &&& 0x80 ≠ 0 →
    ∃ bits, byteBits byte = true :: bits ∧ byteBits (byte &&& 0x7f) = false :: bits := by
  intro byte hodd
  refine ⟨(byteBits byte).tail, ?_⟩
  revert byte
  apply forall_byte
  decide +kernel

theorem byteBits_even : ∀ byte : UInt8, byte &&& 0x80 = 0 →
    byteBits byte ++ [false] = false :: byteBits (byte <<< 1) := by
  apply forall_byte
  decide +kernel

theorem keyTables_zero (key : GcmBlock) :
    (keyTables key).mult 0 = 0 ∧ (keyTables key).reduce 0 = 0 := by
  constructor
  · unfold keyTables
    dsimp only
    rw [byteBits_zero]
    simp [polyProduct]
  · rfl

/-- The entries for a byte are as they are meant. -/
def Right (key : GcmBlock) (tables : GcmTables) (byte : UInt8) : Prop :=
  tables.mult byte = (keyTables key).mult byte ∧ tables.reduce byte = (keyTables key).reduce byte

theorem keyTables_odd (key : GcmBlock) {byte : UInt8} (hodd : byte &&& 0x80 ≠ 0) :
    (keyTables key).mult byte = key ^^^ (keyTables key).mult (byte &&& 0x7f) ∧
      (keyTables key).reduce byte =
        (keyTables key).reduce (byte &&& 0x7f) ^^^ bswap16 (gcmPoly.toUInt16 <<< 8) := by
  obtain ⟨bits, hbits, hother⟩ := byteBits_odd byte hodd
  unfold keyTables
  dsimp only
  rw [hbits, hother, ← bswap16_xor]
  constructor
  · simp [polyProduct]
  · simp [reducePoly, UInt16.xor_comm]

theorem keyTables_even (key : GcmBlock) {byte : UInt8} (heven : byte &&& 0x80 = 0) :
    (keyTables key).mult byte = gcmMultiplyX ((keyTables key).mult (byte <<< 1)) ∧
      (keyTables key).reduce byte =
        bswap16 (bswap16 ((keyTables key).reduce (byte <<< 1)) >>> 1) := by
  have hbits := byteBits_even byte heven
  unfold keyTables
  dsimp only
  rw [← polyProduct_concat_false, ← reducePoly_concat_false (byteBits byte), hbits, bswap16_bswap16]
  constructor
  · simp [polyProduct]
  · simp [reducePoly]

variable {tables : GcmTables}

theorem gcmCacheEntry_right {key : GcmBlock} {i : ℕ} {this : UInt8}
    (hthis : gcmReverse (UInt8.ofNat i) = this)
    (hodd : this &&& 0x80 ≠ 0 → Right key tables (this &&& 0x7f))
    (heven : this &&& 0x80 = 0 → Right key tables (this <<< 1)) {byte : UInt8}
    (hbyte : byte = this ∨ Right key tables byte) :
    Right key (gcmCacheEntry key tables i) byte := by
  have hentry : gcmCacheEntry key tables i =
      { mult := Function.update tables.mult this ((keyTables key).mult this)
        reduce := Function.update tables.reduce this ((keyTables key).reduce this) } := by
    unfold gcmCacheEntry
    dsimp only
    rw [hthis]
    by_cases hzero : this &&& 0x80 = 0
    · obtain ⟨hmult, hreduce⟩ := heven hzero
      obtain ⟨hproduct, hreduced⟩ := keyTables_even key hzero
      rw [if_neg (not_not.2 hzero), hmult, hreduce, ← hproduct, ← hreduced]
    · obtain ⟨hmult, hreduce⟩ := hodd hzero
      obtain ⟨hproduct, hreduced⟩ := keyTables_odd key hzero
      rw [if_pos hzero, hmult, hreduce, ← hproduct, ← hreduced]
  rw [hentry]
  unfold Right
  dsimp only
  by_cases hsame : byte = this
  · rw [hsame, Function.update_self, Function.update_self]
    exact ⟨rfl, rfl⟩
  · rw [Function.update_of_ne hsame, Function.update_of_ne hsame]
    exact hbyte.resolve_left hsame

theorem gcmReverse_before : ∀ i < 255,
    (gcmReverse (UInt8.ofNat (i + 1)) &&& 0x80 ≠ 0 →
        gcmReverse (UInt8.ofNat (i + 1)) &&& 0x7f = gcmReverse (UInt8.ofNat i)) ∧
      (gcmReverse (UInt8.ofNat (i + 1)) &&& 0x80 = 0 →
        gcmReverse (UInt8.ofNat (i + 1)) <<< 1 = gcmReverse (UInt8.ofNat ((i + 1) / 2))) := by
  decide +kernel

theorem gcmReverse_all : ∀ byte : UInt8, gcmReverse (UInt8.ofNat (gcmReverse byte).toNat) = byte := by
  apply forall_byte
  decide +kernel

theorem gcmCacheEntries_right {key : GcmBlock}
    (hzero : Right key tables 0) (count : ℕ) (hcount : count ≤ 255) {j : ℕ} (hj : j ≤ count) :
    Right key ((List.range' 1 count).foldl (gcmCacheEntry key) tables)
      (gcmReverse (UInt8.ofNat j)) := by
  induction count generalizing j with
  | zero =>
    obtain rfl : j = 0 := by omega
    exact hzero
  | succ count ih =>
    have hbefore := gcmReverse_before count (by omega)
    rw [List.range'_concat, List.foldl_append, Nat.one_mul, Nat.add_comm 1 count]
    refine gcmCacheEntry_right rfl ?_ ?_ ?_
    · intro hodd
      rw [hbefore.1 hodd]
      exact ih (by omega) (by omega)
    · intro heven
      rw [hbefore.2 heven]
      exact ih (by omega) (by omega)
    · by_cases hlast : j = count + 1
      · exact .inl (by rw [hlast])
      · exact .inr (ih (by omega) (by omega))

theorem gcmCacheTables_eq {key : GcmBlock} (hmult : tables.mult 0 = 0)
    (hreduce : tables.reduce 0 = 0) : gcmCacheTables key tables = keyTables key := by
  have hzero : Right key tables 0 := by
    rw [Right, hmult, hreduce, (keyTables_zero key).1]
    exact ⟨rfl, rfl⟩
  have hall : ∀ byte, Right key (gcmCacheTables key tables) byte := by
    intro byte
    have hlt := (gcmReverse byte).toNat_lt
    have hright := gcmCacheEntries_right hzero 255 (Nat.le_refl _)
      (by omega : (gcmReverse byte).toNat ≤ 255)
    rw [gcmReverse_all] at hright
    exact hright
  revert hall
  generalize gcmCacheTables key tables = made
  intro hall
  obtain ⟨mult, reduce⟩ := made
  have hmult : mult = (keyTables key).mult := funext fun byte => (hall byte).1
  have hreduce : reduce = (keyTables key).reduce := funext fun byte => (hall byte).2
  rw [hmult, hreduce]

theorem iterate_gcmMultiplyX_byte : ∀ byte : UInt8,
    gcmMultiplyX^[8] (byteAt 15 byte) =
      (reducePoly (byteBits byte)).toBitVec.setWidth 128 <<< 112 := by
  apply forall_byte
  decide +kernel

theorem byteAt_last_ushiftRight : byteAt 15 byte >>> 8 = 0#128 := by
  have hbyte := byte.toNat_lt
  apply eq_of_toNat_eq
  rw [toNat_ushiftRight]
  simp only [byteAt, Nat.sub_self, Nat.mul_zero, shiftLeft_zero, toNat_setWidth,
    UInt8.toNat_toBitVec, toNat_zero]
  omega

theorem getLsbD_byteAt_last {index : ℕ} (hindex : index < 8) :
    (byteAt 15 byte).getLsbD index = byte.toBitVec.getLsbD index := by
  have hlt : index < 128 := by omega
  simp [byteAt, hlt]

theorem gcmMultiplyX8_eq (key poly : GcmBlock) :
    gcmMultiplyX8 (keyTables key) poly = gcmMultiplyX^[8] poly := by
  have hsplit : poly = (poly ^^^ byteAt 15 (blockByte poly 15)) ^^^ byteAt 15 (blockByte poly 15) := by
    rw [BitVec.xor_assoc, BitVec.xor_self, BitVec.xor_zero]
  have hshift : gcmMultiplyX^[8] (poly ^^^ byteAt 15 (blockByte poly 15)) = poly >>> 8 := by
    rw [iterate_gcmMultiplyX_shift 8, ushiftRight_xor_distrib, byteAt_last_ushiftRight,
      BitVec.xor_zero]
    intro index hindex
    rw [getLsbD_xor, getLsbD_byteAt_last _ hindex]
    simp [blockByte, hindex]
  unfold gcmMultiplyX8 keyTables
  dsimp only
  rw [bswap16_bswap16, ← iterate_gcmMultiplyX_byte, ← hshift, ← iterate_gcmMultiplyX_xor, ← hsplit]

theorem polyProduct_bytes (key : GcmBlock) (bytes : Bytes) :
    polyProduct key (bytes.flatMap byteBits) =
      bytes.foldr (fun byte res => gcmMultiplyX8 (keyTables key) res ^^^ (keyTables key).mult byte)
        0 := by
  induction bytes with
  | nil => rfl
  | cons byte bytes ih =>
    rw [List.flatMap_cons, polyProduct_append, ih, List.foldr_cons,
      gcmMultiplyX8_eq, BitVec.xor_comm]
    rfl

/-- **With the tables of a key, the product with the key is computed.** -/
theorem gcmMultiplyTables_eq (key poly : GcmBlock) :
    gcmMultiplyTables (keyTables key) poly = product key poly := by
  have hrange : List.range 16 = List.range 15 ++ [15] := by decide
  have hlast : gcmMultiplyX8 (keyTables key) 0#128 = 0#128 := by
    rw [gcmMultiplyX8_eq, iterate_gcmMultiplyX_zero]
  unfold product gcmMultiplyTables
  rw [blockBits_eq, polyProduct_bytes, blockBytes, hrange, List.map_append, List.foldr_append,
    List.foldr_map]
  simp [hlast]

/-- The cache can be used for a key at an address: the entries that are never made are zero,
and the tables are those of the key, if they are said to be. -/
structure Serves (cache : GcmCache) (address : ℕ) (key : GcmBlock) : Prop where
  mult_zero : cache.tables.mult 0 = 0
  reduce_zero : cache.tables.reduce 0 = 0
  tables : cache.key = some address → cache.tables = keyTables key

variable {cache : GcmCache} {address other : ℕ} {key : GcmBlock}

theorem Serves.gcmCache_eq (h : Serves cache address key) (other : ℕ) (key' : GcmBlock) :
    gcmCache other key' cache = { key := some other, tables := keyTables key' } := by
  unfold gcmCache
  rw [gcmCacheTables_eq h.mult_zero h.reduce_zero]

theorem serves_keyTables (address : ℕ) (key : GcmBlock) :
    Serves { key := some address, tables := keyTables key } address key :=
  ⟨(keyTables_zero key).1, (keyTables_zero key).2, fun _ => rfl⟩

theorem serves_other (hne : other ≠ address) (key key' : GcmBlock) :
    Serves { key := some other, tables := keyTables key' } address key := by
  refine ⟨(keyTables_zero key').1, (keyTables_zero key').2, fun hsame => ?_⟩
  exact absurd (Option.some.inj hsame) hne

/-- **Multiplication with the key**, through the cache. -/
theorem gcmMultiplyKey_serves (h : Serves cache address key) (poly : GcmBlock) :
    (gcmMultiplyKey address key cache poly).2 = product key poly ∧
      Serves (gcmMultiplyKey address key cache poly).1 address key := by
  unfold gcmMultiplyKey
  dsimp only
  by_cases hmade : cache.key = some address
  · rw [if_neg (not_not.2 hmade), h.tables hmade]
    exact ⟨gcmMultiplyTables_eq key poly, h⟩
  · rw [if_pos hmade, h.gcmCache_eq]
    exact ⟨gcmMultiplyTables_eq key poly, serves_keyTables address key⟩

theorem gcmMultiplyKey_other (h : Serves cache address key) (hne : other ≠ address)
    (key' poly : GcmBlock) : Serves (gcmMultiplyKey other key' cache poly).1 address key := by
  unfold gcmMultiplyKey
  by_cases hmade : cache.key = some other
  · rw [if_neg (not_not.2 hmade)]
    exact h
  · rw [if_pos hmade, h.gcmCache_eq]
    exact serves_other hne key key'

end Ipxe.Analysis.Gcm
