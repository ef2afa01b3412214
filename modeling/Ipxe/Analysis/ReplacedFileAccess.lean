import Ipxe.Interface.PlainFile

/-!
# Access to the replaced file

The wrapper reads whole sectors from the sector that the position is in.  That is the file from the
position on only if the position is the start of a sector.
-/

namespace Ipxe.Analysis

open Library Model Interface List

variable {replacement : Replacement} {medium : ℕ → UInt8} {file : ReplacedFile}

theorem limitedLen_eq {len : UInt64} (hpos : file.replaceCurPos ≤ replacement.uiReplaceSize)
    (hfits : file.replaceCurPos + len.toNat < 2 ^ 64) :
    limitedLen replacement file len = wantedLen replacement file len := by
  rw [limitedLen, wantedLen]
  split_ifs <;> omega

theorem limitedLen_round {len : UInt64} (hpos : file.replaceCurPos ≤ replacement.uiReplaceSize)
    (hround : 2 ^ 64 ≤ file.replaceCurPos + len.toNat) :
    limitedLen replacement file len = len.toNat ∧ wantedLen replacement file len < len.toNat := by
  have hsize := replacement.size_lt
  have hlen := len.toNat_lt
  rw [limitedLen, wantedLen]
  constructor
  · rw [if_neg (by omega)]
  · omega

theorem length_readBlocks (medium : ℕ → UInt8) (lba len : ℕ) (blockRead : BlockRead) :
    (readBlocks medium lba len blockRead).length = len := by
  rw [readBlocks, length_map, length_range]

theorem readBlocks_success {blockRead : BlockRead} (h : blockRead.status = efiSuccess) (lba len : ℕ) :
    readBlocks medium lba len blockRead = (range len).map fun i => medium (lba * 2048 + i) := by
  simp [readBlocks, h]

theorem fileRead_reply (len : UInt64) (first second : BlockRead) :
    ∃ data blockReads after,
      ventoyWrapperFileRead replacement medium file len first second =
        ({ data, blockReads }, after) ∧
      data.length = limitedLen replacement file len ∧
      after.replaceCurPos = (file.replaceCurPos + limitedLen replacement file len) % 2 ^ 64 ∧
      (blockReads = if limitedLen replacement file len % 2048 > 0 then
        [first.status, second.status] else [first.status]) := by
  simp only [ventoyWrapperFileRead]
  split_ifs with hpart
  · refine ⟨_, _, _, rfl, ?_, rfl, rfl⟩
    rw [length_append, length_readBlocks, length_take, length_readBlocks]
    omega
  · refine ⟨_, _, _, rfl, ?_, rfl, rfl⟩
    rw [length_readBlocks]
    omega

/-- **What a read returns if the medium can be read**: bytes of the medium from the start of the
sector that the position is in. -/
theorem fileRead_data {len : UInt64} {first second : BlockRead} (hfirst : first.status = efiSuccess)
    (hsecond : limitedLen replacement file len % 2048 ≠ 0 → second.status = efiSuccess) :
    (ventoyWrapperFileRead replacement medium file len first second).1.data =
      (range (limitedLen replacement file len)).map fun i =>
        medium ((file.replaceCurPos / 2048 + replacement.uiReplaceSector) * 2048 + i) := by
  simp only [ventoyWrapperFileRead]
  revert hsecond
  generalize limitedLen replacement file len = readLen
  generalize file.replaceCurPos / 2048 + replacement.uiReplaceSector = lba
  intro hsecond
  split_ifs with hpart
  · -- the last sector goes through the buffer, and only its start is copied
    have hsplit : readLen = readLen - readLen % 2048 + readLen % 2048 := by omega
    have hsector : (lba + (readLen - readLen % 2048) / 2048) * 2048 =
        lba * 2048 + (readLen - readLen % 2048) := by omega
    have hless : readLen % 2048 < 2048 := Nat.mod_lt _ (by decide)
    conv_rhs => rw [hsplit, range_add, map_append, map_map]
    rw [readBlocks_success hfirst, readBlocks_success (hsecond (by omega)), hsector, ← map_take,
      take_range, min_eq_left hless.le]
    refine congrArg _ (map_congr_left fun i _ => ?_)
    rw [Function.comp_apply, add_assoc]
  · have hwhole : readLen % 2048 = 0 := by omega
    rw [hwhole, Nat.sub_zero, readBlocks_success hfirst]

/-! ## The calls -/

theorem fileStep_pos (call : EfiFileCall) (h : file.replaceCurPos ≤ replacement.uiReplaceSize) :
    (fileStep replacement medium file call).replaceCurPos ≤ replacement.uiReplaceSize := by
  cases call with
  | «open» name mode status => exact h
  | setPos position =>
    simp only [fileStep, efiFileCall, ventoyWrapperFileSetPos]
    split_ifs with hinside
    · exact hinside
    · exact le_rfl
  | getPos => exact h
  | read len first second =>
    obtain ⟨data, blockReads, after, hread, -, hafter, -⟩ :=
      @fileRead_reply replacement medium file len first second
    rw [fileStep, efiFileCall, hread]
    show after.replaceCurPos ≤ replacement.uiReplaceSize
    rw [hafter]
    rcases lt_or_ge (file.replaceCurPos + len.toNat) (2 ^ 64) with hfits | hround
    · rw [limitedLen_eq h hfits, wantedLen]
      omega
    · have hlen := len.toNat_lt
      rw [(limitedLen_round h hround).1]
      omega

theorem run_pos (calls : List EfiFileCall) :
    (run (fileStep replacement medium) {} calls).replaceCurPos ≤ replacement.uiReplaceSize :=
  @run_keeps _ _ (fileStep replacement medium)
    (fun file => file.replaceCurPos ≤ replacement.uiReplaceSize)
    (fun _ call h => fileStep_pos call h) {} (Nat.zero_le _) calls

/-- **A call that can be served does what it should.** -/
theorem callRight_of_served (hpos : file.replaceCurPos ≤ replacement.uiReplaceSize)
    {call : EfiFileCall} (hserved : CallServed replacement file call) :
    CallRight replacement medium file call := by
  cases call with
  | «open» name mode status => exact hserved
  | setPos position =>
    refine ⟨rfl, ?_⟩
    simp only [ventoyWrapperFileSetPos]
    split_ifs <;> omega
  | getPos => exact ⟨rfl, rfl, rfl⟩
  | read len first second =>
    obtain ⟨haligned, hfits, hfirst, hsecond⟩ := hserved
    have hlimited := limitedLen_eq hpos hfits
    rw [← hlimited] at haligned hsecond
    have hdata := @fileRead_data replacement medium file len first second hfirst hsecond
    obtain ⟨data, blockReads, after, hread, hlength, hafter, hstatuses⟩ :=
      @fileRead_reply replacement medium file len first second
    rw [hread] at hdata
    simp only [CallRight, efiFileCall, hread]
    refine ⟨?_, fun _ => ⟨?_, ?_⟩⟩
    · rintro ⟨status, hmem, hfailed⟩
      exfalso
      rw [hstatuses] at hmem
      split_ifs at hmem with hpart
      · simp only [mem_cons, not_mem_nil, or_false] at hmem
        rcases hmem with rfl | rfl
        · exact hfailed hfirst
        · exact hfailed (hsecond (by omega))
      · rw [mem_singleton.1 hmem] at hfailed
        exact hfailed hfirst
    · refine hdata.trans ?_
      rw [hlimited, wantedLen]
      refine map_congr_left fun i hi => congrArg medium ?_
      rw [mem_range] at hi
      rcases haligned with haligned | hnone
      · omega
      · rw [hlimited, wantedLen] at hnone
        omega
    · rw [hafter, hlength, hlimited, wantedLen]
      omega

/-- **A call that does what it should on every medium can be served.** -/
theorem served_of_callRight (hpos : file.replaceCurPos ≤ replacement.uiReplaceSize)
    {call : EfiFileCall} (hright : ∀ medium, CallRight replacement medium file call) :
    CallServed replacement file call := by
  cases call with
  | «open» name mode status => exact hright fun _ => 0
  | setPos position => trivial
  | getPos => trivial
  | read len first second =>
    have hreply : ∀ medium,
        (∀ status ∈ (ventoyWrapperFileRead replacement medium file len first second).1.blockReads,
          status = efiSuccess) ∧
        (ventoyWrapperFileRead replacement medium file len first second).1.data =
          fileBytes replacement medium file.replaceCurPos len.toNat := by
      intro medium
      -- no failure is ever reported
      have hstatus : (ventoyWrapperFileRead replacement medium file len first second).1.status =
          efiSuccess := by
        obtain ⟨data, blockReads, after, hread, -⟩ :=
          @fileRead_reply replacement medium file len first second
        rw [hread]
      obtain ⟨hreported, hread⟩ := hright medium
      refine ⟨fun status hmem => ?_, (hread hstatus).1⟩
      by_contra hfailed
      exact hreported ⟨status, hmem, hfailed⟩ hstatus
    obtain ⟨data, blockReads, after, hread, hlength, -, hstatuses⟩ :=
      @fileRead_reply replacement (fun _ => 0) file len first second
    obtain ⟨hsuccess, hdata⟩ := hreply fun _ => 0
    rw [hread] at hsuccess hdata
    -- the length has been limited, so it did not go round
    have hlimited : limitedLen replacement file len = wantedLen replacement file len := by
      rw [← hlength, show data = _ from hdata, fileBytes, length_map, length_range, wantedLen]
    have hfits : file.replaceCurPos + len.toNat < 2 ^ 64 := by
      by_contra hround
      have hlong := limitedLen_round hpos (Nat.le_of_not_lt hround)
      omega
    have hfirst : first.status = efiSuccess := by
      apply hsuccess
      rw [hstatuses]
      split_ifs <;> simp
    have hsecond : limitedLen replacement file len % 2048 ≠ 0 → second.status = efiSuccess := by
      intro hpart
      apply hsuccess
      rw [hstatuses, if_pos (by omega)]
      simp
    refine ⟨?_, hfits, hfirst, hlimited ▸ hsecond⟩
    by_contra hunaligned
    rw [not_or] at hunaligned
    -- a medium with one byte that is not zero, at the position
    have hone := (hreply fun address =>
      if address = replacement.uiReplaceSector * 2048 + file.replaceCurPos then 1 else 0).2
    rw [fileRead_data hfirst hsecond, hlimited, fileBytes, ← wantedLen] at hone
    obtain ⟨more, hmore⟩ := Nat.exists_eq_succ_of_ne_zero hunaligned.2
    rw [hmore, range_succ_eq_map, map_cons, map_cons] at hone
    have hhead := (List.cons.inj hone).1
    rw [fileByte, if_neg (by omega), if_pos (by omega)] at hhead
    cases hhead

/-- **After any calls, a call does what it should on every medium exactly if it can be
served; in a run of such calls every one does what it should.**
[interface/efi/efi_vtoy_protocol.c:153-308] -/
theorem replaced_file_access (replacement : Replacement) (medium : ℕ → UInt8)
    (calls : List EfiFileCall) :
    (∀ call, (∀ other, CallRight replacement other
        (run (fileStep replacement medium) {} calls) call) ↔
      CallServed replacement (run (fileStep replacement medium) {} calls) call) ∧
    (Meets (fileStep replacement medium) (CallServed replacement) {} calls →
      Meets (fileStep replacement medium) (CallRight replacement medium) {} calls) := by
  refine ⟨fun call => ⟨?_, ?_⟩, fun hserved => ?_⟩
  · exact served_of_callRight (run_pos calls)
  · exact fun hserved other => callRight_of_served (run_pos calls) hserved
  · exact hserved.imp
      (fun file call (hpos : file.replaceCurPos ≤ replacement.uiReplaceSize) _ =>
        fileStep_pos call hpos) (fun _ _ hpos h => callRight_of_served hpos h) (Nat.zero_le _)

/-- A file of ten bytes at the start of a medium. -/
def sampleReplacement : Replacement :=
  { arch := .x64, szEFIReplace := ascii "a.efi", uiReplaceSector := 0, uiReplaceSize := 10,
    size_lt := by decide }

def readable : BlockRead := ⟨efiSuccess, fun _ => 0⟩

/-- The file is opened and read from its start. -/
theorem replaced_file_access_start :
    Meets (fileStep sampleReplacement fun _ => 7) (CallRight sampleReplacement fun _ => 7) {}
      [.open [0x61, 0x2e, 0x65, 0x66, 0x69] 1 efiSuccess, .read 4 readable readable] := by
  refine (replaced_file_access sampleReplacement (fun _ => 7) _).2 ⟨fun _ => rfl, ?_, trivial⟩
  exact ⟨Or.inl rfl, by decide, rfl, fun _ => rfl⟩

/-- At position five, three bytes from the start of the file are read. -/
theorem replaced_file_access_unaligned :
    let medium : ℕ → UInt8 := fun address => UInt8.ofNat address
    let file := run (fileStep sampleReplacement medium) {} [.setPos 5]
    (efiFileCall sampleReplacement medium file (.read 3 readable readable)).1.data = [0, 1, 2] ∧
      fileBytes sampleReplacement medium file.replaceCurPos 3 = [5, 6, 7] ∧
      ¬CallRight sampleReplacement medium file (.read 3 readable readable) := by
  intro medium file
  have hdata : (efiFileCall sampleReplacement medium file (.read 3 readable readable)).1.data =
      [0, 1, 2] := by
    refine (fileRead_data rfl fun _ => rfl).trans ?_
    decide
  have hbytes : fileBytes sampleReplacement medium file.replaceCurPos 3 = [5, 6, 7] := by decide
  refine ⟨hdata, hbytes, ?_⟩
  intro hright
  have hsame : (efiFileCall sampleReplacement medium file (.read 3 readable readable)).1.data =
      fileBytes sampleReplacement medium file.replaceCurPos (UInt64.toNat 3) := (hright.2 rfl).1
  rw [hdata] at hsame
  exact absurd (hsame.trans hbytes) (by decide)

end Ipxe.Analysis
