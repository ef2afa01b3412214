import Ipxe.Analysis.GcmCalls

/-!
# Multiplication with the hash key

A block is a polynomial over the field of two elements, and `gcm_multiply_key` computes products
modulo the polynomial of GCM, as long as the cached tables are those of the key.  They are not if a
context that they were made for has been given a key that its cipher refuses.
-/

namespace Ipxe.Analysis.Gcm

open Interface Library Model List Polynomial

section

variable (K : Type) [CommRing K]

/-- The polynomial with some coefficients, that of `x^0` first. -/
noncomputable def bitsPolynomial : List Bool → K[X]
  | [] => 0
  | bit :: bits => (if bit then 1 else 0) + X * bitsPolynomial bits

noncomputable def blockPolynomial (block : GcmBlock) : K[X] := bitsPolynomial K (blockBits block)

/-- The polynomial of GCM. -/
@[irreducible] noncomputable def gcmPolynomial : K[X] := X ^ 128 + (X ^ 7 + X ^ 2 + X + 1)

/-- A block stands for the product of two polynomials, modulo the polynomial of GCM. -/
def IsProduct (key poly block : GcmBlock) : Prop :=
  gcmPolynomial K ∣ blockPolynomial K key * blockPolynomial K poly - blockPolynomial K block

variable {K}

theorem gcmPolynomial_eq : gcmPolynomial K = X ^ 128 + (X ^ 7 + X ^ 2 + X + 1) := by
  delta gcmPolynomial
  exact Eq.refl (X ^ 128 + (X ^ 7 + X ^ 2 + X + 1))

theorem coeff_bitsPolynomial (bits : List Bool) (i : ℕ) :
    (bitsPolynomial K bits).coeff i = if bits.getD i false then 1 else 0 := by
  induction bits generalizing i with
  | nil => simp [bitsPolynomial]
  | cons bit bits ih =>
    cases i with
    | zero => cases bit <;> simp [bitsPolynomial]
    | succ i =>
      rw [bitsPolynomial, coeff_add, coeff_X_mul, ih]
      cases bit <;> simp [coeff_one]

variable (block : GcmBlock)

theorem coeff_blockPolynomial (i : ℕ) :
    (blockPolynomial K block).coeff i = if block.getMsbD i then 1 else 0 := by
  have hbit : (blockBits block).getD i false = block.getMsbD i := by
    by_cases hi : i < 128
    · simp [blockBits, hi]
    · simp [blockBits, hi, BitVec.getMsbD]
  rw [blockPolynomial, coeff_bitsPolynomial, hbit]

theorem blockPolynomial_zero : blockPolynomial K 0#128 = 0 := by
  ext i
  simp [coeff_blockPolynomial]

theorem blockPolynomial_gcmPoly : blockPolynomial K (byteAt 0 gcmPoly) = X ^ 7 + X ^ 2 + X + 1 := by
  have hbits : blockBits (byteAt 0 gcmPoly) =
      [true, true, true, false, false, false, false, true] ++ replicate 120 false := by decide
  have hnone : ∀ count, bitsPolynomial K (replicate count false) = 0 := by
    intro count
    induction count with
    | zero => rfl
    | succ count ih => simp [replicate_succ, bitsPolynomial, ih]
  rw [blockPolynomial, hbits]
  simp only [cons_append, nil_append, bitsPolynomial, hnone, if_true]
  simp
  ring

theorem blockPolynomial_shift :
    X * blockPolynomial K block =
      blockPolynomial K (block >>> 1) + if block.getLsbD 0 then X ^ 128 else 0 := by
  have hcoeff : ∀ i, (if block.getLsbD 0 then X ^ 128 else 0 : K[X]).coeff i =
      if block.getLsbD 0 ∧ i = 128 then 1 else 0 := by
    intro i
    cases block.getLsbD 0 <;> simp [coeff_X_pow]
  ext i
  rw [coeff_add, coeff_blockPolynomial, hcoeff, BitVec.getMsbD_ushiftRight]
  cases i with
  | zero => simp
  | succ i =>
    rw [coeff_X_mul, coeff_blockPolynomial]
    rcases lt_trichotomy i 127 with hlt | rfl | hgt
    · simp [show i + 1 < 128 by omega, show i ≠ 127 by omega]
    · simp [BitVec.getMsbD]
    · simp [BitVec.getMsbD, show ¬ i < 128 by omega, show i ≠ 127 by omega]

variable [CharP K 2]

theorem blockPolynomial_xor (block' : GcmBlock) :
    blockPolynomial K (block ^^^ block') = blockPolynomial K block + blockPolynomial K block' := by
  ext i
  rw [coeff_add, coeff_blockPolynomial, coeff_blockPolynomial, coeff_blockPolynomial,
    BitVec.getMsbD_xor]
  cases block.getMsbD i <;> cases block'.getMsbD i <;> simp [CharTwo.add_self_eq_zero]

/-- Multiplication by `x` is one modulo the polynomial of GCM. -/
theorem dvd_gcmMultiplyX :
    gcmPolynomial K ∣ X * blockPolynomial K block - blockPolynomial K (gcmMultiplyX block) := by
  rw [gcmMultiplyX, blockPolynomial_xor, blockPolynomial_shift, add_sub_add_left_eq_sub]
  split_ifs
  · have hsub : ∀ p q : K[X], p - q = p + q := CharTwo.sub_eq_add
    rw [hsub, blockPolynomial_gcmPoly, gcmPolynomial_eq]
  · simp [blockPolynomial_zero]

theorem dvd_polyProduct (key : GcmBlock) (bits : List Bool) :
    gcmPolynomial K ∣
      blockPolynomial K key * bitsPolynomial K bits - blockPolynomial K (polyProduct key bits) := by
  induction bits with
  | nil => simp [bitsPolynomial, polyProduct, blockPolynomial_zero]
  | cons bit bits ih =>
    have hfirst : blockPolynomial K (if bit then key else 0) =
        blockPolynomial K key * if bit then 1 else 0 := by
      cases bit <;> simp [blockPolynomial_zero]
    have hrest := dvd_add (ih.mul_left X) (dvd_gcmMultiplyX (polyProduct key bits))
    rw [bitsPolynomial, polyProduct, blockPolynomial_xor, hfirst]
    convert hrest using 1
    ring

/-- **The product in the field** is that of polynomials. -/
theorem isProduct_product (key poly : GcmBlock) : IsProduct K key poly (product key poly) := by
  have hdvd := @dvd_polyProduct K _ _ key (blockBits poly)
  rwa [← blockPolynomial, ← Interface.product] at hdvd

end

section

variable {Raw : Type} {arch : Platform} {cipher : RawCipher Raw} {system : GcmSystem Raw}

/-- The cache can be used for every context. -/
def CacheServes (system : GcmSystem Raw) : Prop :=
  ∀ address, Serves system.cache address (system.sessions address).context.key

/-- The tables that are cached for a context are those of its key, and multiplication with the key
of any context gives the product. -/
structure KeysServed (system : GcmSystem Raw) : Prop where
  tables : ∀ address, system.cache.key = some address →
    system.cache.tables = keyTables (system.sessions address).context.key
  multiplies : ∀ address poly, IsProduct (ZMod 2) (system.sessions address).context.key poly
    (gcmMultiplyKey address (system.sessions address).context.key system.cache poly).2

/-- A context is not given a key that its cipher refuses while the tables are cached for it, unless
they are those of zero. -/
def KeepsTables (cipher : RawCipher Raw) (system : GcmSystem Raw) (event : ℕ × GcmCall) : Prop :=
  ∀ key error, event.2 = .setkey key → cipher.setkey key = .error error →
    system.cache.key = some event.1 → (system.sessions event.1).context.key = 0

theorem CacheServes.keysServed (h : CacheServes system) : KeysServed system where
  tables := fun address hmade => (h address).tables hmade
  multiplies := fun address poly => by
    rw [(gcmMultiplyKey_serves (h address) poly).1]
    exact isProduct_product _ poly

variable {event : ℕ × GcmCall}

theorem CacheServes.step (h : CacheServes system) (hkeeps : KeepsTables cipher system event) :
    CacheServes (gcmStep arch cipher system event) := by
  obtain ⟨place, call⟩ := event
  intro address
  unfold gcmStep
  dsimp only
  by_cases hat : address = place
  · subst hat
    rw [Function.update_self]
    cases hcall : call.isSetkey with
    | false =>
      obtain ⟨hsession, hserves⟩ := @gcmCall_mode _ arch cipher address _ _ (h address) _ hcall
      rw [hsession, (modeCall_key _ call).1]
      exact hserves
    | true =>
      cases call with
      | setkey key =>
        cases hkey : cipher.setkey key with
        | error error =>
          simp only [gcmCall, gcmSetkey, hkey]
          refine ⟨(h address).mult_zero, (h address).reduce_zero, fun hmade => ?_⟩
          have hzero := hkeeps key error rfl hkey hmade
          have htables := (h address).tables hmade
          rwa [hzero] at htables
        | ok rawCtx =>
          simp only [gcmCall, gcmSetkey, hkey]
          rw [(h address).gcmCache_eq]
          exact serves_keyTables _ _
      | _ => cases hcall
  · rw [Function.update_of_ne hat]
    exact gcmCall_other (h address) (Ne.symm hat) _ _

theorem CacheServes.keepsTables (h : CacheServes system)
    (hserved : KeysServed (gcmStep arch cipher system event)) :
    KeepsTables cipher system event := by
  obtain ⟨place, call⟩ := event
  rintro key error rfl hkey hmade
  have hone : ∀ key, (keyTables key).mult 0x80 = key := by
    intro key
    rw [(keyTables_odd key (by decide)).1, show (0x80 &&& 0x7f : UInt8) = 0 by decide,
      (keyTables_zero key).1, BitVec.ofNat_eq_ofNat, BitVec.xor_zero]
  have htables := hserved.tables place
  simp only [gcmStep, gcmCall, gcmSetkey, hkey, Function.update_self] at htables
  have hsame := htables hmade
  rw [(h place).tables hmade] at hsame
  rw [← hone (system.sessions place).context.key, hsame, hone]

theorem cacheServes_boot (contexts : ℕ → GcmContext Raw) : CacheServes (bootSystem contexts) :=
  fun _ => ⟨rfl, rfl, nofun⟩

end

/-- **Multiplication with the hash key** is that of polynomials, and the cached tables belong to the
key, as long as no context is given a key that its cipher refuses while they are cached for it.
[crypto/gcm.c:193-312,438-465] -/
theorem gcm_multiplication {Raw : Type} (arch : Platform) (cipher : RawCipher Raw)
    (contexts : ℕ → GcmContext Raw) (events : List (ℕ × GcmCall)) :
    (∀ past, past <+: events → KeysServed (run (gcmStep arch cipher) (bootSystem contexts) past)) ↔
    Meets (gcmStep arch cipher) (KeepsTables cipher) (bootSystem contexts) events :=
  @meets_iff_forall _ _ (gcmStep arch cipher) (KeepsTables cipher) CacheServes KeysServed
    (fun _ h => h.keysServed) (fun _ _ h => h.step) (fun _ _ h => h.keepsTables) _
    (cacheServes_boot contexts) events

/-- A cipher that refuses the empty key, and makes every hash key one. -/
def refusingCipher : RawCipher Unit where
  setkey key := if key = [] then .error .einval else .ok ()
  encrypt _ _ := 1

/-- **Tables of another key**: a context is given a key and then one that is refused, which leaves
it with the key zero and with the tables of the first one. -/
theorem gcm_multiplication_refused :
    ¬ KeysServed (run (gcmStep .x64 refusingCipher) (bootSystem fun _ => ⟨0, 0, 0, 0, 0, ()⟩)
      [(0, .setkey [1]), (0, .setkey [])]) := by
  intro hserved
  have hfirst : KeepsTables refusingCipher (bootSystem fun _ => ⟨0, 0, 0, 0, 0, ()⟩)
      (0, .setkey [1]) := nofun
  have hzero := ((cacheServes_boot _).step hfirst).keepsTables hserved [] .einval rfl rfl rfl
  exact absurd hzero (by decide)

end Ipxe.Analysis.Gcm
