import Ipxe.Model.GrubDigest

/-!
# Partial checksums

A read at the end of the file returns nothing, and the loop goes on; it only ends if the bytes that
it is to hash are there.
-/

namespace Ipxe.Analysis

open Model List

/-- What is hashed is the first bytes of the file, as many as the argument says. -/
def Digests (arch : Platform) (content : Bytes) (n : Option ℕ) (fsRead : ℕ → Option ℕ) : Prop :=
  ∃ turns, digestLoop content fsRead (dstlen arch n content.length) turns 0 [] =
    some (.hashed (content.take (n.getD content.length)))

/-- The bytes that the first turns can read, if there is no error. -/
def served (fsRead : ℕ → Option ℕ) : ℕ → Option ℕ
  | 0 => some 0
  | turn + 1 => do
    let total ← served fsRead turn
    let count ← fsRead turn
    some (total + min count FILEBUFSIZE)

section

variable {content : Bytes} {fsRead : ℕ → Option ℕ} {dstlen : ℕ}

theorem digestLoop_short (h : content.length < dstlen) {turns turn : ℕ} {bytes result : Bytes}
    (hbytes : bytes.length ≤ content.length) :
    digestLoop content fsRead dstlen turns turn bytes ≠ some (.hashed result) := by
  induction turns generalizing turn bytes with
  | zero => nofun
  | succ turns ih =>
    rw [digestLoop, if_pos (by omega), grubFileReadAt]
    split_ifs with hend
    · exact ih (by simpa using hbytes)
    · cases fsRead turn with
      | none => nofun
      | some count =>
        refine ih ?_
        rw [length_append, length_take]
        omega

variable (h : dstlen ≤ content.length)

include h

theorem digestLoop_more {total : ℕ} (hmore : total < dstlen) (turns turn : ℕ) :
    digestLoop content fsRead dstlen (turns + 1) turn (content.take (min dstlen total)) =
      match fsRead turn with
      | none => some .astray
      | some count => digestLoop content fsRead dstlen turns (turn + 1)
          (content.take (min dstlen (total + min count FILEBUFSIZE))) := by
  have hlen : (content.take (min dstlen total)).length = total := by
    rw [length_take]
    omega
  rw [digestLoop, hlen, if_pos hmore, grubFileReadAt]
  rw [if_neg (by rw [FILEBUFSIZE]; omega)]
  cases fsRead turn with
  | none => rfl
  | some count =>
    have hbuf : min dstlen (total + min count FILEBUFSIZE) = total +
        min count (min (min FILEBUFSIZE (dstlen - total)) (content.length - total)) := by
      omega
    simp only [Option.map_some, hbuf, take_add, min_eq_right hmore.le]

theorem digestLoop_done {total : ℕ} (hdone : dstlen ≤ total) (turns turn : ℕ) :
    digestLoop content fsRead dstlen (turns + 1) turn (content.take (min dstlen total)) =
      some (.hashed (content.take dstlen)) := by
  rw [min_eq_left hdone, digestLoop, if_neg]
  rw [length_take]
  omega

theorem served_of_digestLoop {turns turn total : ℕ} {result : Bytes}
    (hserved : served fsRead turn = some total)
    (hloop : digestLoop content fsRead dstlen turns turn (content.take (min dstlen total)) =
      some (.hashed result)) :
    result = content.take dstlen ∧
      ∃ turn total, served fsRead turn = some total ∧ dstlen ≤ total := by
  induction turns generalizing turn total with
  | zero => cases hloop
  | succ turns ih =>
    by_cases hdone : dstlen ≤ total
    · rw [digestLoop_done h hdone] at hloop
      cases hloop
      exact ⟨rfl, turn, total, hserved, hdone⟩
    · rw [digestLoop_more h (by omega)] at hloop
      cases hread : fsRead turn with
      | none => simp [hread] at hloop
      | some count =>
        simp only [hread] at hloop
        exact ih (by simp [served, hserved, hread]) hloop

theorem digestLoop_of_served {turn total : ℕ} (hserved : served fsRead turn = some total)
    {turns : ℕ}
    (hloop : digestLoop content fsRead dstlen turns turn (content.take (min dstlen total)) =
      some (.hashed (content.take dstlen))) :
    ∃ turns, digestLoop content fsRead dstlen turns 0 [] = some (.hashed (content.take dstlen)) := by
  induction turn generalizing total turns with
  | zero =>
    cases hserved
    exact ⟨turns, by simpa using hloop⟩
  | succ turn ih =>
    cases hbefore : served fsRead turn with
    | none => simp [served, hbefore] at hserved
    | some before =>
      cases hread : fsRead turn with
      | none => simp [served, hbefore, hread] at hserved
      | some count =>
        obtain rfl : before + min count FILEBUFSIZE = total := by
          simpa [served, hbefore, hread] using hserved
        by_cases hdone : dstlen ≤ before
        · exact ih hbefore (digestLoop_done h hdone 0 turn)
        · have hturn := @digestLoop_more content fsRead dstlen h before (by omega) turns turn
          rw [hread] at hturn
          exact ih hbefore (hturn.trans hloop)

end

/-- **Partial checksums.**  The commands end and hash the first bytes exactly if the number that they
go up to is that of these bytes, and no error and no want of bytes comes before.
[core/grub/kern/ipxe_grub.c:1258-1396] -/
theorem partial_checksum (arch : Platform) (content : Bytes) (n : Option ℕ)
    (fsRead : ℕ → Option ℕ) :
    Digests arch content n fsRead ↔
      dstlen arch n content.length = min (n.getD content.length) content.length ∧
      ∃ turn total, served fsRead turn = some total ∧
        min (n.getD content.length) content.length ≤ total := by
  constructor
  · rintro ⟨turns, hloop⟩
    by_cases hshort : content.length < dstlen arch n content.length
    · exact absurd hloop (digestLoop_short hshort (Nat.zero_le _))
    · obtain ⟨hresult, hserved⟩ := served_of_digestLoop (not_lt.1 hshort)
        (show served fsRead 0 = some 0 from rfl) (by simpa using hloop)
      have hlen := congrArg List.length hresult
      rw [length_take, length_take, min_eq_left (not_lt.1 hshort)] at hlen
      rw [hlen]
      exact ⟨rfl, hserved⟩
  · rintro ⟨hdstlen, turn, total, hserved, htotal⟩
    have hle : dstlen arch n content.length ≤ content.length := hdstlen ▸ min_le_right _ _
    have hbytes : content.take (n.getD content.length) =
        content.take (dstlen arch n content.length) := by
      rw [take_eq_take_iff]
      omega
    rw [Digests, hbytes]
    exact digestLoop_of_served hle hserved (digestLoop_done hle (hdstlen ▸ htotal) 0 turn)

/-- More bytes than the file has are waited for, for ever, and none are all of them. -/
theorem partial_checksum_never :
    (∀ turns result, digestLoop [1, 2, 3] (fun _ => some 65536) (dstlen .x64 (some 4) 3) turns 0 [] ≠
      some (.hashed result)) ∧
    digestLoop [1, 2, 3] (fun _ => some 65536) (dstlen .x64 (some 0) 3) 2 0 [] =
      some (.hashed [1, 2, 3]) :=
  ⟨fun _ _ => digestLoop_short (by decide) (Nat.zero_le _), by decide⟩

end Ipxe.Analysis
