import Ipxe.Analysis.GcmCalls
import Mathlib

/-!
# The round trip of Galois/Counter Mode

The blocks of data do not depend on how it is cut at multiples of 16 bytes, and the hash is over
the ciphertext on either side.  A cut can change the count of bits, which is a `size_t` in a call.
-/

namespace Ipxe.Analysis.Gcm

open Interface Library Model
open List hiding product

variable {Raw : Type} {arch : Platform} {cipher : RawCipher Raw} {key iv : Bytes}
  {rawCtx : Raw} {calls : List GcmCall} {data : Bytes} {pieces : List Bytes}
  {input : GcmInput arch}

variable (session : GcmSession Raw) (encrypt : GcmBlock → GcmBlock)

/-- A context with a key and an initialisation vector. -/
def freshSession (arch : Platform) (cipher : RawCipher Raw) (rawCtx : Raw)
    (iv : Bytes) : GcmSession Raw where
  context := {
    hash := 0
    lenAdd := 0
    lenData := 0
    ctr := initialCounter arch (cipher.encrypt rawCtx 0) iv
    key := cipher.encrypt rawCtx 0
    rawCtx }

/-- A context that was given a key. -/
def keyedContext (cipher : RawCipher Raw) (rawCtx : Raw) : GcmContext Raw where
  hash := 0
  lenAdd := 0
  lenData := 0
  ctr := gcmResetCtr
  key := cipher.encrypt rawCtx 0
  rawCtx := rawCtx

variable {events : List (ℕ × GcmCall)}

theorem serves_run {system : GcmSystem Raw} {address : ℕ} {hashKey : GcmBlock}
    (h : Serves system.cache address hashKey)
    (hevents : ∀ event ∈ events, event.1 ≠ address) :
    Serves (run (gcmStep arch cipher) system events).cache address hashKey := by
  induction events generalizing system with
  | nil => exact h
  | cons event events ih =>
    rw [forall_mem_cons] at hevents
    exact ih (gcmCall_other h hevents.1 _ _) hevents.2

/-- At any time the entries of the cache for which nothing is made are zero: it would serve a
context that was never used. -/
theorem serves_unused (contexts : ℕ → GcmContext Raw) (events : List (ℕ × GcmCall)) :
    ∃ unused, Serves (run (gcmStep arch cipher) (bootSystem contexts) events).cache unused 0 := by
  obtain ⟨unused, hunused⟩ := Infinite.exists_notMem_finset (events.map Prod.fst).toFinset
  refine ⟨unused, serves_run ⟨rfl, rfl, fun hkey => absurd hkey (by simp [bootSystem])⟩ ?_⟩
  intro event hevent hsame
  apply hunused
  rw [mem_toFinset, mem_map]
  exact ⟨event, hevent, hsame⟩

theorem callsAt_split {address : ℕ} {before after : List GcmCall}
    {call : GcmCall} (h : callsAt address events = before ++ call :: after) :
    ∃ events₁ events₂, events = events₁ ++ (address, call) :: events₂ ∧
      callsAt address events₂ = after := by
  obtain ⟨front, _, hfilter, -, hcall⟩ := map_eq_append_iff.1 h
  obtain ⟨⟨place, _⟩, rest, rfl, rfl, rfl⟩ := map_eq_cons_iff.1 hcall
  obtain ⟨events₁, events₂, rfl, -, hbehind⟩ := filter_eq_append_iff.1 hfilter
  obtain ⟨skipped, later, rfl, -, hplace, rfl⟩ := filter_eq_cons_iff.1 hbehind
  obtain rfl : place = address := by simpa using hplace
  exact ⟨events₁ ++ skipped, later, (append_assoc _ _ _).symm, rfl⟩

theorem foldl_modeCall_key (calls : List GcmCall) :
    (calls.foldl (modeCall arch cipher) session).context.key = session.context.key ∧
      (calls.foldl (modeCall arch cipher) session).context.rawCtx = session.context.rawCtx := by
  induction calls generalizing session with
  | nil => exact ⟨rfl, rfl⟩
  | cons call calls ih =>
    obtain ⟨hkey, hraw⟩ := ih (modeCall arch cipher session call)
    obtain ⟨hkey', hraw'⟩ := modeCall_key session call
    exact ⟨hkey.trans hkey', hraw.trans hraw'⟩

/-- **The context at the end of a run** is what its calls make of a fresh one. -/
theorem session_eq (hkey : cipher.setkey key = .ok rawCtx) (gcm : GcmRun Raw key iv calls)
    (hcalls : ∀ call ∈ calls, call.isSetkey = false) :
    gcm.session arch cipher =
      calls.foldl (modeCall arch cipher) (freshSession arch cipher rawCtx iv) := by
  obtain ⟨events₁, events₂, hevents, hafter⟩ := callsAt_split gcm.events_eq
  obtain ⟨unused, hunused⟩ := @serves_unused _ arch cipher gcm.contexts events₁
  unfold GcmRun.session
  rw [hevents, run_append, run_cons]
  generalize run (gcmStep arch cipher) (bootSystem gcm.contexts) events₁ = system at *
  have hset : gcmStep arch cipher system (gcm.address, .setkey key) =
      { cache := { key := some gcm.address, tables := keyTables (cipher.encrypt rawCtx 0) }
        sessions := Function.update system.sessions gcm.address
          { system.sessions gcm.address with context := keyedContext cipher rawCtx } } := by
    unfold gcmStep gcmCall gcmSetkey
    dsimp only
    rw [hkey]
    dsimp only
    rw [hunused.gcmCache_eq]
    rfl
  rw [hset]
  have hnone : ∀ call ∈ callsAt gcm.address events₂, call.isSetkey = false := by
    rw [hafter]
    intro call hcall
    rcases mem_append.1 hcall with hearlier | hlater
    · exact gcm.earlier_keeps call hearlier
    · rcases mem_cons.1 hlater with rfl | hlater
      · rfl
      · exact hcalls call hlater
  have hserves := serves_keyTables gcm.address (cipher.encrypt rawCtx 0)
  rw [gcmStep_run (by dsimp only; rw [Function.update_self]; exact hserves) hnone, hafter,
    foldl_append, foldl_cons]
  dsimp only
  rw [Function.update_self]
  generalize hkeyed : ({ system.sessions gcm.address with
    context := keyedContext cipher rawCtx } : GcmSession Raw) = keyed
  obtain ⟨hkeep, hraw⟩ := @foldl_modeCall_key _ arch cipher keyed gcm.earlier
  have hfresh : modeCall arch cipher (gcm.earlier.foldl (modeCall arch cipher) keyed)
      (.setiv iv) = freshSession arch cipher rawCtx iv := by
    generalize gcm.earlier.foldl (modeCall arch cipher) keyed = later at hkeep hraw ⊢
    unfold modeCall freshSession
    dsimp only
    rw [hkeep, hraw, ← hkeyed]
    rfl
  rw [hfresh]

def totalBits (arch : Platform) (pieces : List Bytes) : BitVec 64 :=
  (pieces.map (callBits arch)).sum

theorem foldl_authenticate (pieces : List Bytes) :
    pieces.foldl (authenticate arch) session =
      { session with
        context := hashBlocks { session.context with
          lenAdd := session.context.lenAdd + totalBits arch pieces }
            (pieces.flatMap (chunks 16)) } := by
  induction pieces generalizing session with
  | nil => simp [totalBits]
  | cons piece pieces ih =>
    rw [foldl_cons, ih, flatMap_cons, hashBlocks_append]
    simp [authenticate, hashBlocks, totalBits, BitVec.add_assoc]

variable (encrypting : Bool)

theorem foldl_process (session : GcmSession Raw) (pieces : List Bytes) :
    pieces.foldl (process arch cipher encrypting) session =
      { session with
        context := textBlocks cipher encrypting { session.context with
          lenData := session.context.lenData + totalBits arch pieces }
            (pieces.flatMap (chunks 16))
        data := session.data ++ textData cipher session.context (pieces.flatMap (chunks 16)) } := by
  induction pieces generalizing session with
  | nil => simp [totalBits]
  | cons piece pieces ih =>
    rw [foldl_cons, ih, flatMap_cons, textBlocks_append, textData_append encrypting]
    simp [process, textBlocks, textData, totalBits, BitVec.add_assoc]

theorem cutInto_singleton (data : Bytes) : CutInto data [data] := ⟨flatten_singleton, nofun⟩

theorem flatMap_chunks_of_cut (h : CutInto data pieces) :
    pieces.flatMap (chunks 16) = chunks 16 data := by
  rw [← h.1]
  exact (chunks_flatten (by decide) h.2).symm

theorem length_gcmXor {block : Bytes} (h : block.length ≤ 16) (tmp : GcmBlock) :
    (gcmXor block (blockBytes tmp)).length = block.length := by
  unfold gcmXor
  rw [length_zipWith, length_blockBytes]
  omega

theorem short_of_mem_chunks (text : Bytes) : ∀ block ∈ chunks 16 text, block.length ≤ 16 :=
  fun _ hblock => length_of_mem_chunks (by decide) hblock

variable (ctr : GcmBlock)

theorem map_length_crypt {blocks : List Bytes} (h : ∀ block ∈ blocks, block.length ≤ 16) :
    (crypt encrypt ctr blocks).map List.length = blocks.map List.length := by
  induction blocks generalizing ctr with
  | nil => rfl
  | cons block blocks ih =>
    rw [forall_mem_cons] at h
    rw [crypt, map_cons, map_cons, length_gcmXor h.1, ih _ h.2]

theorem gcmXor_gcmXor {block : Bytes} {stream : Bytes}
    (h : block.length ≤ stream.length) : gcmXor (gcmXor block stream) stream = block := by
  unfold gcmXor
  induction block generalizing stream with
  | nil => rfl
  | cons byte block ih =>
    cases stream with
    | nil => exact absurd h (by simp)
    | cons byte' stream =>
      rw [length_cons, length_cons, Nat.add_le_add_iff_right] at h
      rw [zipWith_cons_cons, zipWith_cons_cons, ih h, UInt8.xor_assoc,
        UInt8.xor_self, UInt8.xor_zero]

theorem crypt_crypt {blocks : List Bytes} (h : ∀ block ∈ blocks, block.length ≤ 16) :
    crypt encrypt ctr (crypt encrypt ctr blocks) = blocks := by
  induction blocks generalizing ctr with
  | nil => rfl
  | cons block blocks ih =>
    rw [forall_mem_cons] at h
    rw [crypt, crypt, ih _ h.2, gcmXor_gcmXor]
    exact h.1

theorem chunks_crypt (text : Bytes) :
    chunks 16 (crypt encrypt ctr (chunks 16 text)).flatten = crypt encrypt ctr (chunks 16 text) := by
  apply chunks_flatten_of_lengths (by decide)
  exact map_length_crypt encrypt ctr (short_of_mem_chunks text)

/-- The tag for a hash, for so many blocks of text and for counts of bits. -/
def countedTag (encrypt : GcmBlock → GcmBlock) (hashKey ctr hash : GcmBlock) (blocks : ℕ)
    (add data : BitVec 64) : GcmBlock :=
  product hashKey (lengthsBlock add data ^^^ hash) ^^^
    encrypt (gcmCount (gcmCount ctr (BitVec.ofNat 32 blocks)) ((-data / 128#64).setWidth 32))

/-- The calls for a message, which is encrypted or decrypted. -/
def messageCalls (additional text : List Bytes) : List GcmCall :=
  let call := if encrypting then GcmCall.encrypt else .decrypt
  additional.map (call false) ++ text.map (call true) ++ [.tag]

theorem foldl_messageCalls (additional text : List Bytes) :
    (messageCalls encrypting additional text).foldl (modeCall arch cipher) session =
      modeCall arch cipher (text.foldl (process arch cipher encrypting)
        (additional.foldl (authenticate arch) session)) .tag := by
  unfold messageCalls
  rw [foldl_append, foldl_append, foldl_map, foldl_map]
  cases encrypting <;> rfl

theorem messageCalls_keep (additional text : List Bytes) :
    ∀ call ∈ messageCalls encrypting additional text, call.isSetkey = false := by
  intro call hcall
  simp only [messageCalls, mem_append, mem_map, mem_singleton] at hcall
  rcases hcall with (⟨piece, -, rfl⟩ | ⟨piece, -, rfl⟩) | rfl <;> cases encrypting <;> rfl

theorem session_written (arch : Platform) (hkey : cipher.setkey key = .ok rawCtx)
    (encrypting : Bool)
    {additional text : List Bytes} {allAdditional allText : Bytes}
    (hadditional : CutInto allAdditional additional) (htext : CutInto allText text)
    (gcm : GcmRun Raw key iv (messageCalls encrypting additional text)) :
    let encrypt := cipher.encrypt rawCtx
    let ctr := initialCounter arch (encrypt 0) iv
    let blocks := chunks 16 allText
    (gcm.session arch cipher).data = (crypt encrypt ctr blocks).flatten ∧
      (gcm.session arch cipher).tags = [countedTag encrypt (encrypt 0) ctr
        (ghash (encrypt 0) (ghash (encrypt 0) 0 (chunks 16 allAdditional))
          (if encrypting then crypt encrypt ctr blocks else blocks))
        blocks.length (totalBits arch additional) (totalBits arch text)] := by
  rw [session_eq hkey gcm (messageCalls_keep encrypting additional text), foldl_messageCalls,
    foldl_authenticate, foldl_process, flatMap_chunks_of_cut hadditional,
    flatMap_chunks_of_cut htext]
  simp [modeCall, freshSession, hashBlocks, textBlocks, textData, contextTag, countedTag]

/-- The hash of a message, over additional data and ciphertext. -/
def messageHash (arch : Platform) (encrypt : GcmBlock → GcmBlock) (iv : Bytes)
    (additional text : Bytes) : GcmBlock :=
  ghash (encrypt 0) (ghash (encrypt 0) 0 (chunks 16 additional))
    (crypt encrypt (initialCounter arch (encrypt 0) iv) (chunks 16 text))

/-- The tag of a message, for counts of bits. -/
def messageTag (arch : Platform) (encrypt : GcmBlock → GcmBlock) (iv : Bytes)
    (additional text : Bytes) (add data : BitVec 64) : GcmBlock :=
  countedTag encrypt (encrypt 0) (initialCounter arch (encrypt 0) iv)
    (messageHash arch encrypt iv additional text) (chunks 16 text).length add data

section

variable {additional text : List Bytes} {allAdditional allText : Bytes}

theorem sealed_written (hkey : cipher.setkey key = .ok rawCtx)
    (hadditional : CutInto allAdditional additional) (htext : CutInto allText text)
    (sealed : GcmRun Raw key iv (sealing additional text)) :
    (sealed.session arch cipher).data =
        (crypt (cipher.encrypt rawCtx)
          (initialCounter arch (cipher.encrypt rawCtx 0) iv) (chunks 16 allText)).flatten ∧
      (sealed.session arch cipher).tags =
        [messageTag arch (cipher.encrypt rawCtx) iv allAdditional allText
          (totalBits arch additional) (totalBits arch text)] :=
  session_written arch hkey true hadditional htext sealed

/-- **What decryption writes**, from what encryption has written. -/
theorem opened_written (hkey : cipher.setkey key = .ok rawCtx)
    (hadditional : CutInto allAdditional additional)
    (htext : CutInto (crypt (cipher.encrypt rawCtx)
      (initialCounter arch (cipher.encrypt rawCtx 0) iv) (chunks 16 allText)).flatten text)
    (opened : GcmRun Raw key iv (opening additional text)) :
    (opened.session arch cipher).data = allText ∧
      (opened.session arch cipher).tags =
        [messageTag arch (cipher.encrypt rawCtx) iv allAdditional allText
          (totalBits arch additional) (totalBits arch text)] := by
  obtain ⟨hdata, htags⟩ := session_written arch hkey false hadditional htext opened
  have hshort := short_of_mem_chunks allText
  have hcount := congrArg List.length (map_length_crypt (cipher.encrypt rawCtx)
    (initialCounter arch (cipher.encrypt rawCtx 0) iv) hshort)
  rw [length_map, length_map] at hcount
  rw [chunks_crypt] at hdata htags
  refine ⟨hdata.trans ?_, htags.trans ?_⟩
  · rw [crypt_crypt _ _ hshort, flatten_chunks (by decide)]
  · rw [hcount]
    rfl

end

theorem totalBits_of_fits (h : arch.sizeBits = 64 ∨
      ∀ piece ∈ pieces, piece.length * 8 < 2 ^ arch.sizeBits) :
    totalBits arch pieces = BitVec.ofNat 64 (pieces.flatten.length * 8) := by
  have hcall : ∀ piece ∈ pieces, callBits arch piece = BitVec.ofNat 64 (piece.length * 8) := by
    intro piece hpiece
    unfold callBits
    rcases h with h | h
    · rw [h]
      apply BitVec.eq_of_toNat_eq
      simp
    · rw [Nat.mod_eq_of_lt (h piece hpiece)]
  clear h
  unfold totalBits
  induction pieces with
  | nil => rfl
  | cons piece pieces ih =>
    rw [forall_mem_cons] at hcall
    rw [map_cons, sum_cons, ih hcall.2, hcall.1, flatten_cons, length_append,
      add_mul, BitVec.ofNat_add]

theorem length_piece_le {piece : Bytes} (h : piece ∈ pieces) :
    piece.length ≤ pieces.flatten.length := by
  rw [length_flatten]
  exact le_sum_of_mem (mem_map_of_mem h)

theorem totalBits_of_cut (hcut : CutInto data pieces)
    (h : arch.sizeBits = 64 ∨ data.length * 8 < 2 ^ arch.sizeBits) :
    totalBits arch pieces = BitVec.ofNat 64 (data.length * 8) := by
  rw [← hcut.1] at h ⊢
  apply totalBits_of_fits
  refine h.imp id fun hfits piece hpiece => ?_
  have hle := length_piece_le hpiece
  omega

/-- **Where the counts of bits are right**, the round trip is. -/
theorem roundTrips_of_fits (h : LengthsFit arch input) : RoundTrips arch input := by
  intro Raw cipher key iv rawCtx hkey additional text hadditional htext sealed additional' text'
    hadditional' htext' opened whole
  have hfitsAdditional : arch.sizeBits = 64 ∨
      input.additional.length * 8 < 2 ^ arch.sizeBits := h.imp id And.left
  have hfitsText : arch.sizeBits = 64 ∨
      input.text.length * 8 < 2 ^ arch.sizeBits := h.imp id And.right
  obtain ⟨hsealed, hsealedTags⟩ := @sealed_written _ arch _ _ _ _ _ _ _ _ hkey hadditional
    htext sealed
  rw [hsealed] at htext'
  obtain ⟨hopened, hopenedTags⟩ := opened_written hkey hadditional' htext' opened
  obtain ⟨-, hwholeTags⟩ := @sealed_written _ arch _ _ _ _ _ _ _ _ hkey
    (cutInto_singleton input.additional) (cutInto_singleton input.text) whole
  have hlen : (crypt (cipher.encrypt rawCtx)
      (initialCounter arch (cipher.encrypt rawCtx 0) iv) (chunks 16 input.text)).flatten.length =
        input.text.length := by
    rw [length_flatten, map_length_crypt _ _ (short_of_mem_chunks input.text), ← length_flatten,
      flatten_chunks (by decide)]
  rw [totalBits_of_cut hadditional hfitsAdditional, totalBits_of_cut htext hfitsText] at hsealedTags
  rw [totalBits_of_cut hadditional' hfitsAdditional,
    totalBits_of_cut htext' (by rw [hlen]; exact hfitsText), hlen] at hopenedTags
  rw [totalBits_of_cut (cutInto_singleton _) hfitsAdditional,
    totalBits_of_cut (cutInto_singleton _) hfitsText] at hwholeTags
  exact ⟨hopened, _, hsealedTags, hopenedTags, hwholeTags⟩

/-! ## Counts that are not right -/

def unit : GcmBlock := byteAt 0 0x80

/-- A cipher that encrypts everything to the polynomial 1. -/
def unitCipher : RawCipher Unit where
  setkey _ := .ok ()
  encrypt _ _ := unit

theorem getMsbD_gcmMultiplyX {block : GcmBlock} (h : block.getMsbD 127 = false) (index : ℕ) :
    (gcmMultiplyX block).getMsbD (index + 1) = (decide (index + 1 < 128) && block.getMsbD index) ∧
      (gcmMultiplyX block).getMsbD 0 = false := by
  have hlast : block.getLsbD 0 = false := by
    simpa [BitVec.getMsbD_eq_getLsbD] using h
  unfold gcmMultiplyX
  rw [hlast]
  simp [BitVec.getMsbD_ushiftRight]

theorem getMsbD_unit (index : ℕ) : unit.getMsbD index = decide (index = 0) := by
  have hinside : ∀ index < 128, unit.getMsbD index = decide (index = 0) := by decide
  by_cases hindex : index < 128
  · exact hinside index hindex
  · rw [BitVec.getMsbD_of_ge _ _ (by omega), decide_eq_false (by omega)]

theorem getMsbD_polyProduct_unit {bits : List Bool} (h : bits.length ≤ 128) (index : ℕ) :
    (polyProduct unit bits).getMsbD index = bits.getD index false := by
  induction bits generalizing index with
  | nil => simp [polyProduct]
  | cons bit bits ih =>
    rw [length_cons] at h
    have hlast : (polyProduct unit bits).getMsbD 127 = false := by
      rw [ih (by omega), getD_eq_getElem?_getD, getElem?_eq_none (by omega)]
      rfl
    rw [polyProduct, BitVec.getMsbD_xor]
    cases index with
    | zero =>
      rw [(getMsbD_gcmMultiplyX hlast 0).2]
      cases bit <;> simp [getMsbD_unit]
    | succ index =>
      rw [(getMsbD_gcmMultiplyX hlast index).1, ih (by omega)]
      have hzero : BitVec.getMsbD (if bit then unit else 0) (index + 1) = false := by
        cases bit <;> simp [getMsbD_unit]
      rw [hzero, Bool.false_xor, getD_cons_succ]
      by_cases hindex : index + 1 < 128
      · rw [decide_eq_true hindex, Bool.true_and]
      · rw [decide_eq_false hindex, getD_eq_getElem?_getD, getElem?_eq_none (by omega)]
        rfl

theorem product_unit (poly : GcmBlock) : product unit poly = poly := by
  apply BitVec.eq_of_getMsbD_eq
  intro index hindex
  unfold product blockBits
  rw [getMsbD_polyProduct_unit (by simp)]
  simp [hindex]

def aloneRun (key iv : Bytes) (calls : List GcmCall) : GcmRun Unit key iv calls where
  contexts _ := { hash := 0, lenAdd := 0, lenData := 0, ctr := 0, key := 0, rawCtx := () }
  events := (.setkey key :: .setiv iv :: calls).map fun call => (0, call)
  address := 0
  before := []
  earlier := []
  events_eq := by
    unfold callsAt
    rw [filter_map, map_map]
    simp [Function.comp_def]
  earlier_keeps := by simp

theorem totalBits_chunks (data : Bytes) :
    totalBits arch (chunks 16 data) = BitVec.ofNat 64 (data.length * 8) := by
  have hfits : ∀ piece ∈ chunks 16 data, piece.length * 8 < 2 ^ arch.sizeBits := by
    intro piece hpiece
    have hlen := @length_of_mem_chunks _ 16 (by decide) data piece hpiece
    have hroom : 128 < 2 ^ arch.sizeBits := by cases arch <;> decide
    omega
  rw [totalBits_of_fits (.inr hfits), flatten_chunks (by decide)]

theorem totalBits_one (data : Bytes) : totalBits arch [data] = callBits arch data := by
  simp [totalBits]

theorem lengthsBlock_injective {add add' data data' : BitVec 64}
    (h : lengthsBlock add data = lengthsBlock add' data') : add = add' ∧ data = data' := by
  have hhalves : add ++ data = add' ++ data' := h
  have hdata := congrArg (BitVec.setWidth 64) hhalves
  rw [BitVec.setWidth_append, BitVec.setWidth_append, dif_pos le_rfl,
    BitVec.setWidth_eq, BitVec.setWidth_eq] at hdata
  subst hdata
  exact ⟨(BitVec.append_left_inj data).1 hhalves, rfl⟩

/-- If the round trip is right, the bits of one call are counted as those of all blocks are. -/
theorem callBits_of_roundTrips (h : RoundTrips arch input) :
    callBits arch input.additional = BitVec.ofNat 64 (input.additional.length * 8) ∧
      callBits arch input.text = BitVec.ofNat 64 (input.text.length * 8) := by
  have hcut : ∀ data : Bytes, CutInto data (chunks 16 data) := by
    intro data
    refine ⟨flatten_chunks (by decide) data, fun piece hpiece => ?_⟩
    rw [length_of_mem_dropLast_chunks (by decide) hpiece]
  obtain ⟨-, tag, hsealed, -, hwhole⟩ := h Unit unitCipher [] [] () rfl _ _
    (hcut input.additional) (hcut input.text) (aloneRun [] [] _) _ _ (cutInto_singleton input.additional)
    (cutInto_singleton _) (aloneRun [] [] _) (aloneRun [] [] _)
  have hkey : unitCipher.setkey [] = .ok () := rfl
  rw [(sealed_written hkey (hcut _) (hcut _) _).2, totalBits_chunks, totalBits_chunks] at hsealed
  rw [(sealed_written hkey (cutInto_singleton _) (cutInto_singleton _) _).2] at hwhole
  have htags := (singleton_injective (hsealed.trans hwhole.symm))
  have hkeyUnit : unitCipher.encrypt () 0 = unit := rfl
  unfold messageTag countedTag at htags
  rw [hkeyUnit, product_unit, product_unit] at htags
  have hmask : ∀ block, unitCipher.encrypt () block = unit := fun _ => rfl
  rw [hmask, hmask] at htags
  rw [BitVec.xor_left_inj, BitVec.xor_left_inj] at htags
  obtain ⟨hadditional, htext⟩ := lengthsBlock_injective htags
  rw [totalBits_one] at hadditional htext
  exact ⟨hadditional.symm, htext.symm⟩

theorem fits_of_callBits (hnarrow : arch.sizeBits ≠ 64) (hlen : data.length < 2 ^ arch.sizeBits)
    (h : callBits arch data = BitVec.ofNat 64 (data.length * 8)) :
    data.length * 8 < 2 ^ arch.sizeBits := by
  have hbits : arch.sizeBits = 32 := by
    revert hnarrow
    cases arch <;> decide
  rw [hbits] at hlen ⊢
  have hcounts := congrArg BitVec.toNat h
  unfold callBits at hcounts
  rw [hbits, BitVec.toNat_ofNat, BitVec.toNat_ofNat] at hcounts
  omega

theorem fits_of_roundTrips (h : RoundTrips arch input) : LengthsFit arch input := by
  obtain ⟨hadditional, htext⟩ := callBits_of_roundTrips h
  by_cases hwide : arch.sizeBits = 64
  · exact .inl hwide
  · exact .inr ⟨fits_of_callBits hwide input.additional_lt hadditional,
      fits_of_callBits hwide input.text_lt htext⟩

/-- **The round trip** is right for exactly the messages whose lengths in bits fit into a
`size_t`, or everywhere if that has 64 bits. -/
theorem gcm_round_trip (arch : Platform) (input : GcmInput arch) :
    RoundTrips arch input ↔ LengthsFit arch input :=
  ⟨fits_of_roundTrips, roundTrips_of_fits⟩

/-- Half a gigabyte of zeros on a 32-bit build: encrypted by one call, it has no bits. -/
def halfGigabyte : GcmInput .ia32 where
  additional := []
  text := List.replicate (2 ^ 29) 0
  additional_lt := by decide
  text_lt := by
    rw [length_replicate]
    decide

theorem gcm_round_trip_halfGigabyte : ¬ RoundTrips .ia32 halfGigabyte := by
  intro h
  rcases fits_of_roundTrips h with hwide | ⟨-, hlen⟩
  · exact absurd hwide (by decide)
  · have htext : halfGigabyte.text.length = 2 ^ 29 := length_replicate
    rw [htext] at hlen
    exact absurd hlen (by decide)

end Ipxe.Analysis.Gcm
