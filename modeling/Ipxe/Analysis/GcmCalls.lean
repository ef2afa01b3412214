import Ipxe.Analysis.GcmTables

/-!
# Calls refine the mode

Under a cache that serves its context, every call does what the mode says.  So, in a run, a context
is what its own calls make of it.
-/

namespace Ipxe.Analysis.Gcm

open Interface Library Model List BitVec

variable (ctr : GcmBlock)

theorem toNat_gcmCount (delta : BitVec 32) :
    (gcmCount ctr delta).toNat =
      ctr.toNat / 2 ^ 32 * 2 ^ 32 + (ctr.toNat + delta.toNat) % 2 ^ 32 := by
  unfold gcmCount
  rw [toNat_append, ← Nat.shiftLeft_add_eq_or_of_lt (BitVec.isLt _),
    BitVec.extractLsb'_toNat, toNat_add, toNat_setWidth, Nat.shiftLeft_eq]
  omega

theorem gcmCount_gcmCount (delta delta' : BitVec 32) :
    gcmCount (gcmCount ctr delta) delta' = gcmCount ctr (delta + delta') := by
  apply eq_of_toNat_eq
  rw [toNat_gcmCount, toNat_gcmCount, toNat_gcmCount, toNat_add]
  omega

theorem gcmCount_zero : gcmCount ctr 0#32 = ctr := by
  apply eq_of_toNat_eq
  rw [toNat_gcmCount, toNat_zero, add_zero, Nat.div_add_mod']

theorem gcmCount_succ (count : ℕ) :
    gcmCount (gcmCount ctr 1#32) (BitVec.ofNat 32 count) =
      gcmCount ctr (BitVec.ofNat 32 (count + 1)) := by
  rw [gcmCount_gcmCount, add_comm, ofNat_add]

theorem byteAt_xor (index : ℕ) (byte byte' : UInt8) :
    byteAt index (byte ^^^ byte') = byteAt index byte ^^^ byteAt index byte' := by
  unfold byteAt
  rw [UInt8.toBitVec_xor, setWidth_xor, shiftLeft_xor_distrib]

theorem bytesFrom_xor (index : ℕ) {bytes bytes' : Bytes} (h : bytes.length = bytes'.length) :
    bytesFrom index (gcmXor bytes bytes') = bytesFrom index bytes ^^^ bytesFrom index bytes' := by
  induction bytes generalizing index bytes' with
  | nil =>
    have hnil : bytes' = [] := eq_nil_of_length_eq_zero h.symm
    rw [hnil]
    simp [gcmXor, bytesFrom]
  | cons byte bytes ih =>
    cases bytes' with
    | nil => exact absurd h (by simp)
    | cons byte' bytes' =>
      rw [length_cons, length_cons, Nat.add_right_cancel_iff] at h
      have hrest := ih (index + 1) h
      unfold gcmXor at hrest ⊢
      rw [zipWith_cons_cons, bytesFrom, bytesFrom, bytesFrom, hrest, byteAt_xor]
      ac_rfl

theorem length_blockBytes (block : GcmBlock) : (blockBytes block).length = 16 := by
  simp [blockBytes]

theorem gcmXor_take (frag src : Bytes) : gcmXor frag (src.take frag.length) = gcmXor frag src := by
  unfold gcmXor
  induction frag generalizing src with
  | nil => rfl
  | cons byte frag ih =>
    cases src with
    | nil => rfl
    | cons byte' src => simp [ih]

/-- The block that is hashed in encryption: the data is XORed into the hash, and then as much of
the key stream. -/
theorem gcmXorInto_gcmXorInto {frag : Bytes} (hfrag : frag.length ≤ 16) (tmp hash : GcmBlock) :
    gcmXorInto ((blockBytes tmp).take frag.length) (gcmXorInto frag hash) =
      hash ^^^ bytesBlock (gcmXor frag (blockBytes tmp)) := by
  have hlen : frag.length = ((blockBytes tmp).take frag.length).length := by
    rw [length_take_of_le]
    exact hfrag
  unfold gcmXorInto bytesBlock
  rw [← gcmXor_take, bytesFrom_xor 0 hlen, xor_assoc]

variable {Raw : Type} {arch : Platform} {cipher : RawCipher Raw} {address other flags : ℕ}
  {key : GcmBlock} {work : GcmWork Raw} {cache : GcmCache} {session : GcmSession Raw}
  (encrypting : Bool) (context : GcmContext Raw) (blocks blocks' : List Bytes)

/-- The flags of encryption and of decryption. -/
def textFlags (encrypting : Bool) : ℕ := if encrypting then gcmFlEncrypt else 0

theorem crypt_append (encrypt : GcmBlock → GcmBlock) (ctr : GcmBlock)
    (blocks blocks' : List Bytes) :
    crypt encrypt ctr (blocks ++ blocks') =
      crypt encrypt ctr blocks ++
        crypt encrypt (gcmCount ctr (BitVec.ofNat 32 blocks.length)) blocks' := by
  induction blocks generalizing ctr with
  | nil => simp [crypt, gcmCount_zero]
  | cons block blocks ih => simp [crypt, ih, gcmCount_succ]

theorem hashBlocks_append :
    hashBlocks context (blocks ++ blocks') = hashBlocks (hashBlocks context blocks) blocks' := by
  simp [hashBlocks, ghash]

theorem textBlocks_append :
    textBlocks cipher encrypting context (blocks ++ blocks') =
      textBlocks cipher encrypting (textBlocks cipher encrypting context blocks) blocks' := by
  have hcount := gcmCount_gcmCount context.ctr (BitVec.ofNat 32 blocks.length)
    (BitVec.ofNat 32 blocks'.length)
  rw [← ofNat_add] at hcount
  unfold textBlocks
  cases encrypting <;> simp [ghash, crypt_append, hcount]

theorem textData_append :
    textData cipher context (blocks ++ blocks') =
      textData cipher context blocks ++
        textData cipher (textBlocks cipher encrypting context blocks) blocks' := by
  simp [textData, textBlocks, crypt_append]

@[simp] theorem hashBlocks_nil : hashBlocks context [] = context := rfl

@[simp] theorem textBlocks_nil : textBlocks cipher encrypting context [] = context := by
  cases encrypting <;> simp [textBlocks, ghash, crypt, gcmCount_zero]

@[simp] theorem textData_nil : textData cipher context [] = [] := rfl

/-- What is left of the work when some blocks have been processed. -/
def afterBlocks (cipher : RawCipher Raw) (encrypting hasDst : Bool) (work : GcmWork Raw)
    (blocks : List Bytes) (cache : GcmCache) : GcmWork Raw :=
  if hasDst then
    { cache
      context := textBlocks cipher encrypting work.context blocks
      dst := work.dst ++ textData cipher work.context blocks }
  else { work with cache, context := hashBlocks work.context blocks }

theorem afterBlocks_nil (hasDst : Bool) :
    afterBlocks cipher encrypting hasDst work [] work.cache = work := by
  cases hasDst <;> simp [afterBlocks]

theorem afterBlocks_append (hasDst : Bool) (cache' : GcmCache) :
    afterBlocks cipher encrypting hasDst
        (afterBlocks cipher encrypting hasDst work blocks cache) blocks' cache' =
      afterBlocks cipher encrypting hasDst work (blocks ++ blocks') cache' := by
  cases hasDst with
  | false => simp [afterBlocks, hashBlocks_append]
  | true => simp [afterBlocks, textBlocks_append, textData_append encrypting]

/-- A turn of the loop; the flags matter only if there is a destination. -/
theorem gcmFragment_eq {hasDst : Bool} (hflags : hasDst = true → flags = textFlags encrypting)
    (h : Serves work.cache address work.context.key) {frag : Bytes}
    (hfrag : frag.length ≤ 16) :
    ∃ cache, Serves cache address work.context.key ∧
      gcmFragment cipher address flags hasDst work frag =
        afterBlocks cipher encrypting hasDst work [frag] cache := by
  unfold gcmFragment
  dsimp only
  cases hasDst with
  | false =>
    rw [if_neg (by decide)]
    obtain ⟨hproduct, hserves⟩ := gcmMultiplyKey_serves h (gcmXorInto frag work.context.hash)
    refine ⟨_, hserves, ?_⟩
    rw [hproduct]
    rfl
  | true =>
    have hlen : frag.length &&& flags = if encrypting then frag.length else 0 := by
      rw [hflags rfl]
      cases encrypting with
      | false => exact Nat.and_zero _
      | true =>
        have hmask : textFlags true = 2 ^ 8 - 1 := rfl
        rw [hmask, Nat.and_two_pow_sub_one_eq_mod]
        exact Nat.mod_eq_of_lt (by omega)
    rw [if_pos rfl, hlen]
    obtain ⟨hproduct, hserves⟩ := gcmMultiplyKey_serves h
      (gcmXorInto ((blockBytes (cipher.encrypt work.context.rawCtx
        (gcmCount work.context.ctr 1))).take (if encrypting then frag.length else 0))
          (gcmXorInto frag work.context.hash))
    refine ⟨_, hserves, ?_⟩
    rw [hproduct]
    unfold afterBlocks textBlocks textData
    cases encrypting with
    | false => simp [gcmXorInto, bytesBlock, bytesFrom, crypt, ghash]
    | true => simp [gcmXorInto_gcmXorInto hfrag, crypt, ghash]

theorem gcmFragments_eq {hasDst : Bool} (hflags : hasDst = true → flags = textFlags encrypting)
    {fuel : ℕ} {src : Bytes} (hfuel : src.length ≤ fuel)
    (h : Serves work.cache address work.context.key) :
    ∃ cache, Serves cache address work.context.key ∧
      gcmFragments cipher address flags hasDst fuel work src =
        afterBlocks cipher encrypting hasDst work (chunks 16 src) cache := by
  induction fuel generalizing work src with
  | zero =>
    have hnil : src = [] := eq_nil_of_length_eq_zero (by omega)
    rw [hnil, chunks_nil]
    exact ⟨work.cache, h, (afterBlocks_nil encrypting hasDst).symm⟩
  | succ fuel ih =>
    unfold gcmFragments
    by_cases hnil : src = []
    · rw [if_pos hnil, hnil, chunks_nil]
      exact ⟨work.cache, h, (afterBlocks_nil encrypting hasDst).symm⟩
    have hchunks : chunks 16 src = [src.take 16] ++ chunks 16 (src.drop 16) :=
      chunks_of_ne_nil (by decide) hnil
    obtain ⟨cache, hserves, hfragment⟩ :=
      @gcmFragment_eq _ cipher address _ work encrypting _ hflags h _ (length_take_le 16 src)
    have hafter : Serves (afterBlocks cipher encrypting hasDst work [src.take 16] cache).cache address
        (afterBlocks cipher encrypting hasDst work [src.take 16] cache).context.key := by
      cases hasDst <;> exact hserves
    obtain ⟨cache', hserves', hrest⟩ := @ih _ (src.drop 16) (by rw [length_drop]; omega) hafter
    refine ⟨cache', by cases hasDst <;> exact hserves', ?_⟩
    rw [if_neg hnil, hfragment, hrest, hchunks, afterBlocks_append]

theorem gcmHash_serves {context : GcmContext Raw} (h : Serves cache address context.key) :
    (gcmHash address cache context).2 =
        product context.key (lengthsBlock context.lenAdd context.lenData ^^^ context.hash) ∧
      Serves (gcmHash address cache context).1 address context.key :=
  gcmMultiplyKey_serves h _

theorem gcmSetiv_serves {context : GcmContext Raw} (h : Serves cache address context.key)
    (iv : Bytes) :
    (gcmSetiv arch cipher address cache context iv).2 =
        { context with
          hash := 0, lenAdd := 0, lenData := 0
          ctr := initialCounter arch context.key iv } ∧
      Serves (gcmSetiv arch cipher address cache context iv).1 address context.key := by
  unfold gcmSetiv initialCounter
  by_cases hwhole : iv.length = 12
  · rw [if_pos hwhole, if_pos hwhole]
    exact ⟨rfl, h⟩
  rw [if_neg hwhole, if_neg hwhole]
  unfold gcmProcess
  dsimp only
  rw [if_pos (.inr (by decide))]
  obtain ⟨cache', hserves, hfragments⟩ := @gcmFragments_eq _ cipher address gcmFlIv
    { cache
      context := { context with
        hash := 0, lenAdd := 0, lenData := 0 + callBits arch iv, ctr := gcmResetCtr } }
    false false nofun iv.length iv (le_refl _) h
  have hbits : BitVec.ofNat 64 (iv.length * 8 % 2 ^ arch.sizeBits) = callBits arch iv := rfl
  rw [hbits, hfragments, afterBlocks, if_neg (by decide)]
  obtain ⟨hhash, hserves'⟩ := @gcmHash_serves _ address cache' (hashBlocks
    { context with
        hash := 0, lenAdd := 0, lenData := 0 + callBits arch iv, ctr := gcmResetCtr }
    (chunks 16 iv)) hserves
  refine ⟨?_, hserves'⟩
  rw [hhash]
  simp [hashBlocks]

theorem modeCall_key (session : GcmSession Raw) (call : GcmCall) :
    (modeCall arch cipher session call).context.key = session.context.key ∧
      (modeCall arch cipher session call).context.rawCtx = session.context.rawCtx := by
  cases call with
  | setkey key => exact ⟨rfl, rfl⟩
  | setiv iv => exact ⟨rfl, rfl⟩
  | encrypt hasDst src => cases hasDst <;> exact ⟨rfl, rfl⟩
  | decrypt hasDst src => cases hasDst <;> exact ⟨rfl, rfl⟩
  | tag => exact ⟨rfl, rfl⟩

/-- Encryption or decryption, of text or of additional data. -/
theorem gcmProcess_mode (h : Serves cache address session.context.key) (encrypting hasDst : Bool)
    (src : Bytes) :
    ∃ cache', Serves cache' address session.context.key ∧
      gcmProcess arch cipher address (textFlags encrypting) hasDst
          { cache, context := session.context, dst := session.data } src =
        let session' := if hasDst then process arch cipher encrypting session src
          else authenticate arch session src
        { cache := cache', context := session'.context, dst := session'.data } := by
  have hflags : textFlags encrypting &&& gcmFlIv = 0 := by cases encrypting <;> decide
  unfold gcmProcess
  dsimp only
  cases hasDst with
  | false =>
    rw [if_neg (by simp [hflags])]
    exact @gcmFragments_eq _ cipher address _
      ⟨cache, { session.context with
        lenAdd := session.context.lenAdd + callBits arch src }, session.data⟩
      encrypting false nofun _ _ (le_refl _) h
  | true =>
    exact @gcmFragments_eq _ cipher address _
      ⟨cache, { session.context with
        lenData := session.context.lenData + callBits arch src }, session.data⟩
      encrypting true (fun _ => rfl) _ _ (le_refl _) h

theorem gcmCall_mode (h : Serves cache address session.context.key) {call : GcmCall}
    (hcall : call.isSetkey = false) :
    (gcmCall arch cipher address cache session call).2 = modeCall arch cipher session call ∧
      Serves (gcmCall arch cipher address cache session call).1 address
        session.context.key := by
  cases call with
  | setkey key => exact absurd hcall (by simp [GcmCall.isSetkey])
  | setiv iv =>
    obtain ⟨hcontext, hserves⟩ := @gcmSetiv_serves _ arch cipher address cache _ h iv
    refine ⟨?_, hserves⟩
    unfold gcmCall modeCall
    dsimp only
    rw [hcontext]
  | encrypt hasDst src =>
    obtain ⟨cache', hserves, hprocess⟩ := @gcmProcess_mode _ arch cipher _ _ _ h true hasDst src
    unfold gcmCall
    dsimp only
    rw [gcmEncrypt, show gcmFlEncrypt = textFlags true from rfl, hprocess]
    refine ⟨?_, hserves⟩
    cases hasDst <;> rfl
  | decrypt hasDst src =>
    obtain ⟨cache', hserves, hprocess⟩ := @gcmProcess_mode _ arch cipher _ _ _ h false hasDst src
    unfold gcmCall
    dsimp only
    rw [gcmDecrypt, show 0 = textFlags false from rfl, hprocess]
    refine ⟨?_, hserves⟩
    cases hasDst <;> rfl
  | tag =>
    obtain ⟨hhash, hserves⟩ := gcmHash_serves h
    unfold gcmCall gcmTag modeCall contextTag
    dsimp only
    rw [hhash]
    exact ⟨rfl, hserves⟩

theorem gcmFragment_other (h : Serves work.cache address key) (hne : other ≠ address) (flags : ℕ)
    (hasDst : Bool) (frag : Bytes) :
    Serves (gcmFragment cipher other flags hasDst work frag).cache address key := by
  unfold gcmFragment
  dsimp only
  apply gcmMultiplyKey_other _ hne
  cases hasDst <;> exact h

theorem gcmFragments_other (hne : other ≠ address) (flags : ℕ) (hasDst : Bool) (fuel : ℕ)
    (h : Serves work.cache address key) (src : Bytes) :
    Serves (gcmFragments cipher other flags hasDst fuel work src).cache address key := by
  induction fuel generalizing work src with
  | zero => exact h
  | succ fuel ih =>
    unfold gcmFragments
    split_ifs
    · exact h
    · exact ih (gcmFragment_other h hne flags hasDst _) _

theorem gcmProcess_other (h : Serves work.cache address key) (hne : other ≠ address) (flags : ℕ)
    (hasDst : Bool) (src : Bytes) :
    Serves (gcmProcess arch cipher other flags hasDst work src).cache address key := by
  exact gcmFragments_other hne flags hasDst _ (by exact h) src

theorem gcmHash_other (hne : other ≠ address) (h : Serves cache address key)
    (context : GcmContext Raw) : Serves (gcmHash other cache context).1 address key :=
  gcmMultiplyKey_other h hne _ _

theorem gcmCall_other (h : Serves cache address key) (hne : other ≠ address)
    (session : GcmSession Raw) (call : GcmCall) :
    Serves (gcmCall arch cipher other cache session call).1 address key := by
  cases call with
  | setkey newKey =>
    unfold gcmCall gcmSetkey
    dsimp only
    cases cipher.setkey newKey with
    | error error => exact h
    | ok rawCtx =>
      dsimp only
      rw [h.gcmCache_eq]
      exact serves_other hne key _
  | setiv iv =>
    unfold gcmCall gcmSetiv
    dsimp only
    split_ifs
    · exact h
    · apply gcmHash_other hne
      exact @gcmProcess_other _ arch cipher address other key
        ⟨cache, { session.context with
          hash := 0, lenAdd := 0, lenData := 0, ctr := gcmResetCtr }, []⟩ h hne gcmFlIv false iv
  | encrypt hasDst src => exact gcmProcess_other (by exact h) hne _ _ _
  | decrypt hasDst src => exact gcmProcess_other (by exact h) hne _ _ _
  | tag => exact gcmHash_other hne h _

/-- **A context in a run** is what its own calls make of it. -/
theorem gcmStep_run {system : GcmSystem Raw} {events : List (ℕ × GcmCall)}
    (h : Serves system.cache address (system.sessions address).context.key)
    (hcalls : ∀ call ∈ callsAt address events, call.isSetkey = false) :
    (run (gcmStep arch cipher) system events).sessions address =
      (callsAt address events).foldl (modeCall arch cipher) (system.sessions address) := by
  induction events generalizing system with
  | nil => rfl
  | cons event events ih =>
    obtain ⟨place, call⟩ := event
    rw [run_cons]
    by_cases hat : place = address
    · subst hat
      have hsplit : callsAt place ((place, call) :: events) = call :: callsAt place events := by
        simp [callsAt]
      rw [hsplit, forall_mem_cons] at hcalls
      obtain ⟨hsession, hserves⟩ := @gcmCall_mode _ arch cipher place _ _ h call hcalls.1
      have hkey := (@modeCall_key _ arch cipher (system.sessions place) call).1
      have hnext : (gcmStep arch cipher system (place, call)).sessions place =
          modeCall arch cipher (system.sessions place) call := by
        unfold gcmStep
        dsimp only
        rw [Function.update_self, hsession]
      rw [ih _ hcalls.2, hsplit, foldl_cons, hnext]
      rw [hnext, hkey]
      exact hserves
    · have hsplit : callsAt address ((place, call) :: events) = callsAt address events := by
        simp [callsAt, hat]
      rw [hsplit] at hcalls ⊢
      have hnext : (gcmStep arch cipher system (place, call)).sessions address =
          system.sessions address := by
        unfold gcmStep
        dsimp only
        rw [Function.update_of_ne (Ne.symm hat)]
      rw [ih _ hcalls, hnext]
      rw [hnext]
      exact gcmCall_other h hat _ call

end Ipxe.Analysis.Gcm
