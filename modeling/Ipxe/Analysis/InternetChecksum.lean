import Ipxe.Library.OnesComplement
import Ipxe.Model.Tcp

/-!
# The Internet checksum

Both routines compute the one's complement sum that stands for the total of the 16-bit words
(`onesRep`).  The generic routine does not return from a block of `2 ^ 32` bytes or more.
-/

namespace Ipxe.Analysis

open Library Model List Bool

variable (partialSum : UInt16)

variable {data : Bytes} {value : ℕ} {reg : X86Sum} {total : ℕ} {build : X86Build}

/-- The 16-bit words of a block as they lie in memory, with a zero byte behind an odd one. -/
def wordsOf : Bytes → List ℕ
  | [] => []
  | [low] => [low.toNat]
  | low :: high :: data => (low.toNat + 256 * high.toNat) :: wordsOf data

/-- The complement of the one's complement sum of the complement of a previous checksum and
the words of a block. -/
def rfc1071 (partialSum : UInt16) (data : Bytes) : UInt16 :=
  UInt16.ofNat (0xffff - (wordsOf data).foldl onesAdd (0xffff - partialSum.toNat))

/-- The bytes of a checksum in memory. -/
def chksumBytes (chksum : UInt16) : Bytes :=
  [UInt8.ofNat (chksum.toNat % 256), UInt8.ofNat (chksum.toNat / 256)]

/-- The routines agree on a block with each other and with the specification, the checksum can
be continued at even offsets, and a block with its checksum filled in has the checksum 0. -/
structure ChksumCorrect (build : X86Build) (address : ℕ) (partialSum : UInt16)
    (data : Bytes) : Prop where
  generic : ∃ steps, genericTcpipContinueChksum steps partialSum data =
    some (x86TcpipContinueChksum build address partialSum data)
  rfc : x86TcpipContinueChksum build address partialSum data = rfc1071 partialSum data
  continued : ∀ first second : Bytes, ∀ address', data = first ++ second →
    first.length % 2 = 0 →
    x86TcpipContinueChksum build address'
      (x86TcpipContinueChksum build address partialSum first) second =
      x86TcpipContinueChksum build address partialSum data
  filled : ∀ before behind : Bytes, data = before ++ [0, 0] ++ behind →
    before.length % 2 = 0 →
    x86TcpipContinueChksum build address partialSum
      (before ++ chksumBytes (x86TcpipContinueChksum build address partialSum data) ++ behind) = 0

theorem wordsOf_le (data : Bytes) : ∀ word ∈ wordsOf data, word ≤ 0xffff := by
  fun_induction wordsOf data with
  | case1 => exact forall_mem_nil _
  | case2 low =>
    intro word hmem
    have hlow := low.toNat_lt
    rw [mem_singleton.1 hmem]
    omega
  | case3 low high data ih =>
    have hlow := low.toNat_lt
    have hhigh := high.toNat_lt
    exact forall_mem_cons.2 ⟨by omega, ih⟩

theorem foldl_onesAdd {words : List ℕ} (h : ∀ word ∈ words, word ≤ 0xffff) (total : ℕ) :
    words.foldl onesAdd (onesRep total) = onesRep (total + words.sum) := by
  induction words generalizing total with
  | nil => rfl
  | cons word words ih =>
    obtain ⟨hword, hwords⟩ := forall_mem_cons.1 h
    rw [foldl_cons, onesAdd_onesRep total hword, ih hwords, sum_cons, add_assoc]

theorem wordsOf_append {first : Bytes} (second : Bytes) (h : first.length % 2 = 0) :
    wordsOf (first ++ second) = wordsOf first ++ wordsOf second := by
  fun_induction wordsOf first with
  | case1 => rfl
  | case2 low => exact absurd h (by decide : ¬ 1 % 2 = 0)
  | case3 low high data ih =>
    have heven : data.length % 2 = 0 := by
      simp only [length_cons] at h
      omega
    simp only [cons_append, wordsOf, ih heven]

/-- What has been added before a block. -/
def startTotal (partialSum : UInt16) : ℕ := 0xffff - partialSum.toNat

theorem rfc1071_eq (data : Bytes) :
    rfc1071 partialSum data =
      UInt16.ofNat (0xffff - onesRep (startTotal partialSum + (wordsOf data).sum)) := by
  have hstart : onesRep (startTotal partialSum) = 0xffff - partialSum.toNat :=
    onesRep_of_le (Nat.sub_le _ _)
  rw [rfc1071, ← foldl_onesAdd (wordsOf_le data), hstart]

theorem startTotal_ofNat (total : ℕ) :
    startTotal (UInt16.ofNat (0xffff - onesRep total)) = onesRep total := by
  have hle := onesRep_le total
  rw [startTotal, UInt16.toNat_ofNat']
  omega

theorem rfc1071_continued {first : Bytes} (second : Bytes) (h : first.length % 2 = 0) :
    rfc1071 (rfc1071 partialSum first) second = rfc1071 partialSum (first ++ second) := by
  rw [rfc1071_eq, rfc1071_eq partialSum first, startTotal_ofNat, onesRep_add_onesRep, rfc1071_eq,
    wordsOf_append second h, sum_append, add_assoc]

theorem rfc1071_filled {before : Bytes} (behind : Bytes) (h : before.length % 2 = 0) :
    rfc1071 partialSum (before ++
      chksumBytes (rfc1071 partialSum (before ++ [0, 0] ++ behind)) ++ behind) = 0 := by
  have hparts (low high : UInt8) : (wordsOf (before ++ [low, high] ++ behind)).sum =
      (wordsOf before).sum + (low.toNat + 256 * high.toNat) + (wordsOf behind).sum := by
    rw [append_assoc, wordsOf_append _ h]
    simp only [cons_append, nil_append, wordsOf, sum_append, sum_cons]
    omega
  have hbytes (chksum : UInt16) : (UInt8.ofNat (chksum.toNat % 256)).toNat +
      256 * (UInt8.ofNat (chksum.toNat / 256)).toNat = chksum.toNat := by
    have hlt := chksum.toNat_lt
    rw [UInt8.toNat_ofNat', UInt8.toNat_ofNat']
    omega
  rw [rfc1071_eq, chksumBytes, hparts, hbytes, rfc1071_eq, hparts]
  generalize startTotal partialSum = start
  have hcompl := onesRep_add_compl (start + ((wordsOf before).sum + (UInt8.toNat 0 +
    256 * UInt8.toNat 0) + (wordsOf behind).sum))
  rw [UInt16.toNat_ofNat', Nat.mod_eq_of_lt (by omega)]
  have hzero : UInt8.toNat 0 + 256 * UInt8.toNat 0 = 0 := rfl
  rw [hzero, add_zero] at hcompl ⊢
  rw [show ∀ a b c d : ℕ, a + (b + c + d) = a + (b + d) + c by omega, hcompl]
  rfl

theorem tcpipChksumStep_eq (cksum i : ℕ) (byte : UInt8) : tcpipChksumStep cksum i byte =
    onesAdd cksum (if i % 2 = 1 then byte.toNat * 256 else byte.toNat) := rfl

theorem tcpipChksumLoop_eq (data : Bytes) {i : ℕ} (h : i % 2 = 0) (total : ℕ) :
    tcpipChksumLoop (onesRep total) i data = onesRep (total + (wordsOf data).sum) := by
  fun_induction wordsOf data generalizing i total with
  | case1 => rfl
  | case2 low =>
    have hlow := low.toNat_lt
    rw [tcpipChksumLoop, tcpipChksumLoop, tcpipChksumStep_eq, if_neg (by omega),
      onesAdd_onesRep total (by omega), sum_singleton]
  | case3 low high data ih =>
    have hlow := low.toNat_lt
    have hhigh := high.toNat_lt
    rw [tcpipChksumLoop, tcpipChksumLoop, tcpipChksumStep_eq, tcpipChksumStep_eq,
      if_neg (by omega), if_pos (by omega), onesAdd_onesRep total (by omega),
      onesAdd_onesRep _ (by omega), ih (by omega), sum_cons]
    congr 1
    omega

theorem genericTcpipChksumUpTo_eq (h : data.length < 2 ^ 32) (steps : ℕ) {i : ℕ}
    (hi : i + steps = data.length + 1) (cksum : ℕ) :
    genericTcpipChksumUpTo data steps i cksum =
      if steps = 0 then none else some (tcpipChksumLoop cksum i (data.drop i)) := by
  induction steps generalizing i cksum with
  | zero => rfl
  | succ steps ih =>
    rw [if_neg (Nat.succ_ne_zero steps), genericTcpipChksumUpTo]
    split
    · next hlt =>
        have hbyte : data.getD i 0 = data[i] := by simp [hlt]
        rw [Nat.mod_eq_of_lt (by omega), ih (by omega), if_neg (by omega),
          drop_eq_getElem_cons hlt, tcpipChksumLoop, hbyte]
    · rw [drop_eq_nil_of_le (by omega), tcpipChksumLoop]

theorem genericTcpipChksumUpTo_long (h : 2 ^ 32 ≤ data.length) (steps : ℕ) {i : ℕ} (hi : i < 2 ^ 32)
    (cksum : ℕ) : genericTcpipChksumUpTo data steps i cksum = none := by
  induction steps generalizing i cksum with
  | zero => rfl
  | succ steps ih =>
    rw [genericTcpipChksumUpTo, if_pos (by omega)]
    exact ih (Nat.mod_lt _ (by norm_num)) _

/-! ## The x86 routine -/

theorem adc_total {size : ℕ} (h : value < 256 ^ size) (reg : X86Sum) :
    (reg.adc size value).sum + 256 ^ size * (reg.adc size value).cf.toNat =
      reg.sum + value + reg.cf.toNat := by
  have hcf := reg.cf.toNat_le
  have hdiv := Nat.div_add_mod' reg.sum (256 ^ size)
  simp only [X86Sum.adc]
  by_cases hcarry : 256 ^ size ≤ reg.sum % 256 ^ size + value + reg.cf.toNat
  · rw [decide_eq_true hcarry, Nat.mod_eq_sub_mod hcarry, Nat.mod_eq_of_lt (by omega), toNat_true]
    omega
  · rw [decide_eq_false hcarry, Nat.mod_eq_of_lt (by omega), toNat_false]
    omega

theorem adc_lt {size long : ℕ} (hsize : size ≤ long) (h : reg.sum < 256 ^ long) :
    (reg.adc size value).sum < 256 ^ long := by
  have hpow : 256 ^ long = 256 ^ (long - size) * 256 ^ size := by
    rw [← pow_add, Nat.sub_add_cancel hsize]
  have hpos : 0 < 256 ^ size := by positivity
  have hhigh : reg.sum / 256 ^ size + 1 ≤ 256 ^ (long - size) :=
    (Nat.div_lt_iff_lt_mul hpos).2 (hpow ▸ h)
  calc reg.sum / 256 ^ size * 256 ^ size +
        (reg.sum % 256 ^ size + value + reg.cf.toNat) % 256 ^ size
      < (reg.sum / 256 ^ size + 1) * 256 ^ size := by
        rw [Nat.add_one_mul]
        exact Nat.add_lt_add_left (Nat.mod_lt _ hpos) _
    _ ≤ 256 ^ long := by
        rw [hpow]
        exact Nat.mul_le_mul_right _ hhigh

theorem adcHigh_adc (reg : X86Sum) (h : value < 256) :
    (reg.adc 1 value).adcHigh = reg.adc 2 value := by
  have hcf := reg.cf.toNat_le
  simp only [X86Sum.adc, X86Sum.adcHigh, pow_one, X86Sum.mk.injEq, decide_eq_decide]
  by_cases hcarry : 256 ≤ reg.sum % 256 + value + reg.cf.toNat
  · rw [decide_eq_true hcarry, toNat_true]
    omega
  · rw [decide_eq_false hcarry, toNat_false]
    omega

/-- The register and the carry flag stand for a total. -/
def Stands (reg : X86Sum) (total : ℕ) : Prop :=
  (reg.sum + reg.cf.toNat) % 0xffff = total % 0xffff ∧ (reg.sum + reg.cf.toNat = 0 ↔ total = 0)

/-- The weight of the carry is congruent to one. -/
theorem Stands.adc {size added : ℕ} (h : Stands reg total) (hsize : 256 ^ size % 0xffff = 1)
    (hvalue : value < 256 ^ size) (hmod : value % 0xffff = added % 0xffff)
    (hzero : value = 0 ↔ added = 0) : Stands (reg.adc size value) (total + added) := by
  obtain ⟨hsum, hsumZero⟩ := h
  have htotal := adc_total hvalue reg
  unfold Stands
  cases hcf : (reg.adc size value).cf with
  | false =>
    rw [hcf, toNat_false] at htotal
    rw [toNat_false]
    omega
  | true =>
    rw [hcf, toNat_true] at htotal
    rw [toNat_true]
    omega

theorem leValue_lt (data : Bytes) : leValue data < 256 ^ data.length := by
  induction data with
  | nil => decide
  | cons byte data ih =>
    have hbyte := byte.toNat_lt
    rw [leValue, length_cons]
    omega

theorem leValue_wordsOf (data : Bytes) :
    leValue data % 0xffff = (wordsOf data).sum % 0xffff ∧
      (leValue data = 0 ↔ (wordsOf data).sum = 0) := by
  fun_induction wordsOf data with
  | case1 => exact ⟨rfl, Iff.rfl⟩
  | case2 low => simp [leValue]
  | case3 low high data ih =>
    rw [leValue, leValue, sum_cons]
    omega

/-- The state stands, with the data to come, for a total; the register is as wide as a long. -/
structure Summing (build : X86Build) (total : ℕ) (state : X86Sum × Bytes) : Prop where
  stands : ∃ done, Stands state.1 done ∧ done + (wordsOf state.2).sum = total
  narrow : state.1.sum < 256 ^ build.longBytes

/-- So many words of a size are loaded and added. -/
theorem Summing.lodsAdc {size : ℕ} (hsize : 256 ^ size % 0xffff = 1) (heven : size % 2 = 0)
    (hlong : size ≤ build.longBytes) (n : ℕ) {state : X86Sum × Bytes}
    (h : Summing build total state) (hlen : n * size ≤ state.2.length) :
    Summing build total (X86Sum.lodsAdc size n state) ∧
      (X86Sum.lodsAdc size n state).2.length = state.2.length - n * size := by
  induction n generalizing state with
  | zero => exact ⟨h, by rw [zero_mul]; rfl⟩
  | succ n ih =>
    obtain ⟨reg, data⟩ := state
    obtain ⟨⟨done, hstands, htotal⟩, hnarrow⟩ := h
    dsimp only at hstands htotal hnarrow hlen ⊢
    rw [Nat.succ_mul] at hlen ⊢
    have htake : (data.take size).length = size := by
      rw [length_take]
      omega
    have hvalue := leValue_lt (data.take size)
    rw [htake] at hvalue
    obtain ⟨hmod, hzero⟩ := leValue_wordsOf (data.take size)
    have hnext : Summing build total
        (reg.adc size (leValue (data.take size)), data.drop size) := by
      refine ⟨⟨_, hstands.adc hsize hvalue hmod hzero, ?_⟩, adc_lt hlong hnarrow⟩
      have hsplit := wordsOf_append (data.drop size) (htake.symm ▸ heven)
      rw [take_append_drop] at hsplit
      rw [← htotal]
      simp only [hsplit, sum_append]
      omega
    have hdrop : (data.drop size).length = data.length - size := length_drop
    obtain ⟨hsum, hrest⟩ := ih hnext (by simp only [hdrop]; omega)
    refine ⟨hsum, hrest.trans ?_⟩
    dsimp only
    omega

theorem Summing.unrolled (n : ℕ) {state : X86Sum × Bytes} (h : Summing build total state)
    (hlen : n * 16 * build.longBytes ≤ state.2.length) :
    Summing build total (X86Sum.unrolled build.longBytes n state) ∧
      (X86Sum.unrolled build.longBytes n state).2.length =
        state.2.length - n * 16 * build.longBytes := by
  induction n generalizing state with
  | zero => exact ⟨h, by simp [X86Sum.unrolled]⟩
  | succ n ih =>
    have hsize : 256 ^ build.longBytes % 0xffff = 1 := by cases build <;> decide
    have heven : build.longBytes % 2 = 0 := by cases build <;> decide
    have hmul : (n + 1) * 16 * build.longBytes =
        n * 16 * build.longBytes + 16 * build.longBytes := by ring
    obtain ⟨hsum, hrest⟩ := h.lodsAdc hsize heven le_rfl 16 (by omega)
    obtain ⟨hsum, hrest'⟩ := ih hsum (by omega)
    exact ⟨hsum, hrest'.trans (by omega)⟩

theorem Stands.foldl {words : List ℕ} (hwords : ∀ word ∈ words, word < 65536) (h : Stands reg total)
    (hnarrow : reg.sum < 256 ^ 2) :
    Stands (words.foldl (X86Sum.adc 2) reg) (total + words.sum) ∧
      (words.foldl (X86Sum.adc 2) reg).sum < 256 ^ 2 := by
  induction words generalizing reg total with
  | nil => exact ⟨h, hnarrow⟩
  | cons word words ih =>
    obtain ⟨hword, hwords⟩ := forall_mem_cons.1 hwords
    rw [sum_cons, ← add_assoc]
    exact ih hwords (h.adc (by decide) hword rfl Iff.rfl) (adc_lt le_rfl hnarrow)

/-- The weight of a word is congruent to one. -/
theorem sum_upperWords (n : ℕ) {sum : ℕ} (h : sum < 65536 ^ (n + 1)) :
    let words := (range n).map fun i => sum / 65536 ^ (i + 1) % 65536
    (sum % 65536 + words.sum) % 0xffff = sum % 0xffff ∧
      (sum % 65536 + words.sum = 0 ↔ sum = 0) := by
  induction n generalizing sum with
  | zero =>
    rw [Nat.mod_eq_of_lt (show sum < 65536 from h)]
    exact ⟨rfl, Iff.rfl⟩
  | succ n ih =>
    have hwords : (range (n + 1)).map (fun i => sum / 65536 ^ (i + 1) % 65536) =
        sum / 65536 % 65536 :: (range n).map fun i => sum / 65536 / 65536 ^ (i + 1) % 65536 := by
      simp [range_succ_eq_map, Function.comp_def, Nat.div_div_eq_div_mul, ← pow_succ']
    obtain ⟨hmod, hzero⟩ := ih (Nat.div_lt_of_lt_mul (h.trans_eq (pow_succ' _ _)))
    simp only [hwords, sum_cons]
    omega

/-- The carry is consumed, and the carry of that. -/
theorem consumed_carry (h : reg.sum < 256 ^ 2) :
    reg.sum + reg.cf.toNat = 0xffff * (reg.adc 2 0).cf.toNat + ((reg.adc 2 0).adc 2 0).sum ∧
      ((reg.adc 2 0).adc 2 0).sum ≤ 0xffff ∧
      (((reg.adc 2 0).adc 2 0).sum = 0 → reg.sum + reg.cf.toNat = 0) := by
  have hfirst := @adc_total 0 2 (by norm_num) reg
  have hfirstLt := @adc_lt 0 reg 2 2 le_rfl h
  generalize reg.adc 2 0 = first at hfirst hfirstLt ⊢
  have hsecond := @adc_total 0 2 (by norm_num) first
  have hsecondLt := @adc_lt 0 first 2 2 le_rfl hfirstLt
  generalize first.adc 2 0 = second at hsecond hsecondLt ⊢
  have hcf := reg.cf.toNat_le
  norm_num only at h hfirst hfirstLt hsecond hsecondLt
  cases hcarry : first.cf <;> simp only [hcarry, toNat_false, toNat_true] at hfirst hsecond ⊢
  · omega
  · omega

/-- **The fold** gives the sum that stands for the total. -/
theorem fold_eq (h : Stands reg total) (hnarrow : reg.sum < 256 ^ build.longBytes) :
    reg.fold build = onesRep total := by
  have hupper : ∀ word ∈ X86Sum.upperWords build reg.sum, word < 65536 := by
    intro word hmem
    obtain ⟨i, -, rfl⟩ := mem_map.1 hmem
    exact Nat.mod_lt _ (by norm_num)
  have hlow : Stands { reg with sum := reg.sum % 65536 } (reg.sum % 65536 + reg.cf.toNat) :=
    ⟨rfl, Iff.rfl⟩
  obtain ⟨⟨hmod, hzero⟩, hsum⟩ := hlow.foldl hupper (Nat.mod_lt _ (by norm_num))
  obtain ⟨hregMod, hregZero⟩ := h
  have hwide : 256 ^ build.longBytes = 65536 ^ (build.longBytes / 2 - 1 + 1) := by
    cases build <;> decide
  obtain ⟨hwordsMod, hwordsZero⟩ := sum_upperWords (build.longBytes / 2 - 1) (hwide ▸ hnarrow)
  rw [← X86Sum.upperWords] at hwordsMod hwordsZero
  have hlowMod : _ % 0xffff = total % 0xffff :=
    hmod.trans ((congrArg (· % 0xffff) (add_right_comm _ _ _)).trans
      ((Nat.ModEq.add_right reg.cf.toNat hwordsMod).trans hregMod))
  unfold X86Sum.fold
  simp only
  generalize (X86Sum.upperWords build reg.sum).foldl (X86Sum.adc 2)
    { reg with sum := reg.sum % 65536 } = low at hlowMod hzero hsum
  obtain ⟨hcarried, hlt, hcarriedZero⟩ := consumed_carry hsum
  exact eq_onesRep hlt (by rw [← hlowMod, hcarried, Nat.mul_add_mod]) (by
    clear hmod hlowMod hregMod hwordsMod
    omega)

/-- **The x86 routine.**  All bytes are loaded, in order and at one of the sizes. -/
theorem x86TcpipContinueChksum_eq (build : X86Build) (address : ℕ) (partialSum : UInt16)
    (data : Bytes) :
    x86TcpipContinueChksum build address partialSum data = rfc1071 partialSum data := by
  have hlong : build.longBytes = 4 ∨ build.longBytes = 8 := by cases build <;> decide
  have hsize : 256 ^ build.longBytes % 0xffff = 1 := by cases build <;> decide
  have hstart : Summing build (startTotal partialSum + (wordsOf data).sum)
      (⟨0xffff - partialSum.toNat, false⟩, data) := by
    refine ⟨⟨startTotal partialSum, ⟨rfl, Iff.rfl⟩, rfl⟩, ?_⟩
    cases build <;> simp only [X86Build.longBytes] <;> omega
  rw [rfc1071_eq]
  unfold x86TcpipContinueChksum
  simp only
  generalize hinitial : (if data.length ≥ build.longBytes then
    (build.longBytes - address % build.longBytes) % build.longBytes / 2 else 0) = initial
  have hroom : initial * 2 ≤ data.length := by
    rw [← hinitial]
    split
    · have hlt := Nat.mod_lt (build.longBytes - address % build.longBytes)
        (show 0 < build.longBytes by omega)
      omega
    · omega
  generalize hlen : data.length - initial * 2 = len
  obtain ⟨hsum, hrest₁⟩ := hstart.lodsAdc (by decide) (by decide) (by omega) initial hroom
  dsimp only at hrest₁
  generalize X86Sum.lodsAdc 2 initial _ = state₁ at hsum hrest₁ ⊢
  obtain ⟨hsum, hrest₂⟩ := hsum.lodsAdc hsize (by omega) le_rfl
    (len % (build.longBytes * 16) / build.longBytes) (by rcases hlong with h | h <;> rw [h] <;> omega)
  generalize X86Sum.lodsAdc build.longBytes _ state₁ = state₂ at hsum hrest₂ ⊢
  obtain ⟨hsum, hrest₃⟩ := hsum.unrolled (len / (build.longBytes * 16))
    (by rcases hlong with h | h <;> rw [h] at hrest₂ ⊢ <;> omega)
  generalize X86Sum.unrolled build.longBytes _ state₂ = state₃ at hsum hrest₃ ⊢
  obtain ⟨hsum, hrest₄⟩ := hsum.lodsAdc (by decide : 256 ^ 2 % 0xffff = 1) (by decide) (by omega)
    (len % build.longBytes / 2) (by rcases hlong with h | h <;> rw [h] at hrest₂ hrest₃ ⊢ <;> omega)
  have hodd : (X86Sum.lodsAdc 2 (len % build.longBytes / 2) state₃).2.length = len % 2 := by
    rcases hlong with h | h <;> rw [h] at hrest₂ hrest₃ hrest₄ ⊢ <;> omega
  generalize X86Sum.lodsAdc 2 _ state₃ = final at hsum hodd ⊢
  obtain ⟨reg, rest⟩ := final
  obtain ⟨⟨done, hstands, htotal⟩, hnarrow⟩ := hsum
  dsimp only at hodd hstands htotal hnarrow ⊢
  split
  · next hone =>
      obtain ⟨byte, rfl⟩ := length_eq_one_iff.1 (hodd.trans hone)
      have hbyte := byte.toNat_lt
      rw [headD_cons, adcHigh_adc reg hbyte]
      have hlast := hstands.adc (by decide : 256 ^ 2 % 0xffff = 1)
        (show byte.toNat < 256 ^ 2 by omega) rfl Iff.rfl
      rw [fold_eq hlast (adc_lt (by omega) hnarrow), ← htotal, wordsOf, sum_singleton]
  · next hone =>
      have hnil : rest = [] := length_eq_zero_iff.1 (by omega)
      rw [fold_eq hstands hnarrow, ← htotal, hnil, wordsOf, sum_nil, add_zero]

theorem genericTcpipContinueChksum_eq (h : data.length < 2 ^ 32) :
    genericTcpipContinueChksum (data.length + 1) partialSum data =
      some (rfc1071 partialSum data) := by
  have hstart : onesRep (startTotal partialSum) = 0xffff - partialSum.toNat :=
    onesRep_of_le (Nat.sub_le _ _)
  rw [genericTcpipContinueChksum, genericTcpipChksumUpTo_eq h _ (zero_add _), drop_zero,
    ← hstart, tcpipChksumLoop_eq data rfl, rfc1071_eq]
  rfl

/-- **The Internet checksum.**  On any block, at any address and after any previous checksum, both
routines return the complement of the one's complement sum, which can be continued and makes the
block with it filled in sum to zero: just if the block is shorter than the generic one can count. -/
theorem internet_checksum (build : X86Build) (address : ℕ) (partialSum : UInt16) (data : Bytes) :
    ChksumCorrect build address partialSum data ↔ data.length < 2 ^ 32 := by
  constructor
  · intro h
    obtain ⟨steps, hreturns⟩ := h.generic
    by_contra hlong
    rw [genericTcpipContinueChksum,
      genericTcpipChksumUpTo_long (not_lt.1 hlong) steps (by norm_num)] at hreturns
    cases hreturns
  · intro hshort
    refine ⟨⟨data.length + 1, ?_⟩, ?_, fun first second address' hsplit heven => ?_,
      fun before behind hsplit heven => ?_⟩
    · rw [x86TcpipContinueChksum_eq]
      exact genericTcpipContinueChksum_eq partialSum hshort
    · exact x86TcpipContinueChksum_eq build address partialSum data
    · simp only [x86TcpipContinueChksum_eq, hsplit]
      exact rfc1071_continued partialSum second heven
    · simp only [x86TcpipContinueChksum_eq, hsplit]
      exact rfc1071_filled partialSum behind heven

/-- From a block of `2 ^ 32` zero bytes the generic routine does not return. -/
theorem internet_checksum_long :
    ¬ ∃ steps chksum, genericTcpipContinueChksum steps 0 (List.replicate (2 ^ 32) 0) =
      some chksum := by
  rintro ⟨steps, chksum, hreturns⟩
  have hlen : (List.replicate (2 ^ 32) (0 : UInt8)).length = 2 ^ 32 := length_replicate
  rw [genericTcpipContinueChksum, genericTcpipChksumUpTo_long hlen.ge steps (by norm_num)]
    at hreturns
  cases hreturns

theorem sum_wordsOf_byte (before behind : Bytes) :
    ∃ rest weight, (weight = 1 ∨ weight = 256) ∧ ∀ byte : UInt8,
      (wordsOf (before ++ byte :: behind)).sum = rest + weight * byte.toNat := by
  fun_induction wordsOf before with
  | case1 =>
    cases behind with
    | nil => exact ⟨0, 1, .inl rfl, fun byte => by simp [wordsOf]⟩
    | cons high behind =>
      refine ⟨256 * high.toNat + (wordsOf behind).sum, 1, .inl rfl, fun byte => ?_⟩
      simp [wordsOf]
      omega
  | case2 low =>
    refine ⟨low.toNat + (wordsOf behind).sum, 256, .inr rfl, fun byte => ?_⟩
    simp [wordsOf]
    omega
  | case3 low high before ih =>
    obtain ⟨rest, weight, hweight, hsum⟩ := ih
    refine ⟨low.toNat + 256 * high.toNat + rest, weight, hweight, fun byte => ?_⟩
    simp [wordsOf, hsum, add_assoc]

/-- **Corruption is noticed.**  A packet that is accepted is rejected when one of its bytes has been
changed, whichever it is.
[net/tcpip.c:170-191, net/tcp.c:1421-1460] -/
theorem tcp_corruption_rejected (pshdrCsum : UInt16) (before behind : Bytes) (byte byte' : UInt8)
    (haccepted : (tcpParse pshdrCsum (before ++ byte :: behind)).isOk) (hne : byte' ≠ byte) :
    tcpParse pshdrCsum (before ++ byte' :: behind) = .error .einval := by
  obtain ⟨rest, weight, hweight, hsum⟩ := sum_wordsOf_byte before behind
  have hzero (byte : UInt8) (h : tcpipContinueChksum pshdrCsum (before ++ byte :: behind) = 0) :
      (startTotal pshdrCsum + (rest + weight * byte.toNat)) % 0xffff = 0 := by
    have hstart := onesRep_of_le (a := startTotal pshdrCsum) (Nat.sub_le _ _)
    rw [tcpipContinueChksum, ← startTotal, ← hstart, tcpipChksumLoop_eq _ rfl, hsum] at h
    have hval := congrArg UInt16.toNat h
    have hle := onesRep_le (startTotal pshdrCsum + (rest + weight * byte.toNat))
    unfold onesRep at hval hle
    split at hval <;> simp at hval
    omega
  have hrejected (byte : UInt8) (h : tcpipContinueChksum pshdrCsum (before ++ byte :: behind) ≠ 0) :
      tcpParse pshdrCsum (before ++ byte :: behind) = .error .einval := by
    simp only [tcpParse, if_pos h]
    split_ifs <;> rfl
  have hold : tcpipContinueChksum pshdrCsum (before ++ byte :: behind) = 0 := by
    by_contra h
    rw [hrejected byte h] at haccepted
    cases haccepted
  refine hrejected byte' fun hnew => hne (UInt8.toNat_inj.1 ?_)
  have hlt := byte.toNat_lt
  have hlt' := byte'.toNat_lt
  replace hold := hzero byte hold
  replace hnew := hzero byte' hnew
  rcases hweight with rfl | rfl <;> omega

theorem tcp_corruption_rejected_syn :
    tcpParse 25444 [0, 80, 4, 0, 255, 255, 255, 255, 0, 0, 0, 2, 80, 18, 16, 0, 0, 0, 0, 0] =
      .error .einval :=
  tcp_corruption_rejected 25444 [0, 80, 4, 0, 255, 255, 255, 255, 0, 0, 0]
    [80, 18, 16, 0, 0, 0, 0, 0] 1 2 (by decide +kernel) (by decide)

end Ipxe.Analysis
