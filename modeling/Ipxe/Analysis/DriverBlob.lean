import Ipxe.Interface.DriverModules
import Mathlib.Data.List.TakeWhile

/-!
# The driver buffer is what is read

The buffer is computed with four bytes too many for each module and none for the header, and the
counter in the header is not reset with the list.  No file can be read into it while `grub_errno` is
set.
-/

namespace Ipxe.Analysis

open Library Model Interface List Option

variable {path : Bytes} {mem : ℤ → UInt8}

/-- A string ends before its NUL. -/
theorem zero_notMem_cstr (buf : Bytes) : 0 ∉ cstr buf := by
  intro h
  have hne := mem_takeWhile_imp h
  simp at hne

theorem zero_notMem_snprintf (size : ℕ) (parts : List Bytes) : 0 ∉ snprintf size parts := by
  intro h
  obtain ⟨part, -, hpart⟩ := mem_flatMap.1 (mem_of_mem_take h)
  exact zero_notMem_cstr part hpart

theorem length_snprintf_le (size : ℕ) (parts : List Bytes) :
    (snprintf size parts).length ≤ size - 1 :=
  length_take_le _ _

theorem cstr_append_zero (h : 0 ∉ path) (rest : Bytes) : cstr (path ++ 0 :: rest) = path := by
  have hall : ∀ c ∈ path, decide (c ≠ 0) = true := fun c hc =>
    decide_eq_true fun hzero => h (hzero ▸ hc)
  rw [cstr, takeWhile_append_of_pos hall]
  simp

theorem cstr_eq_self (h : 0 ∉ path) : cstr path = path :=
  takeWhile_eq_self_iff.2 fun _ hc => decide_eq_true fun hzero => h (hzero ▸ hc)

/-- A path as it is kept in a node. -/
def IsPath (path : Bytes) : Prop := 0 ∉ path ∧ path.length ≤ 255

/-- What is printed to a path fits it. -/
theorem isPath_snprintf (parts : List Bytes) : IsPath (snprintf 256 parts) :=
  ⟨zero_notMem_snprintf 256 parts, length_snprintf_le 256 parts⟩

variable (files : GrubFiles) (nodes : List NetdrvNode)

def filesLen : ℕ :=
  ((moduleFiles files nodes).map fun file => file.2.length).sum

structure NodeOf (files : GrubFiles) (node : NetdrvNode) : Prop where
  opens : ∃ content, files node.szKoPath = some content ∧
    node.koSize = BitVec.ofNat 32 content.length
  path : IsPath node.szKoPath

structure Collected (files : GrubFiles) (drv : NetDrv) : Prop where
  nodes : ∀ node ∈ drv.list, NodeOf files node
  total : drv.totLen = BitVec.ofNat 32 (filesLen files drv.list)

section

variable {files : GrubFiles} {drv : NetDrv}

theorem filesLen_append (nodes nodes' : List NetdrvNode) :
    filesLen files (nodes ++ nodes') = filesLen files nodes + filesLen files nodes' := by
  simp [filesLen, moduleFiles]

theorem Collected.appendNetdrv (h : Collected files drv) (hpath : IsPath path) :
    Collected files (Model.appendNetdrv files path drv) := by
  unfold Model.appendNetdrv
  cases hopen : grubFileOpen files drv.grubErrno path with
  | none => exact ⟨h.nodes, h.total⟩
  | some content =>
    have hfile := (grubFileOpen_eq_some.1 hopen).2
    refine ⟨fun node hnode => ?_, ?_⟩
    · rcases mem_append.1 hnode with hold | hnew
      · exact h.nodes node hold
      · rw [mem_singleton.1 hnew]
        exact ⟨⟨content, hfile, rfl⟩, hpath⟩
    · have hone : filesLen files [⟨path, BitVec.ofNat 32 content.length⟩] = content.length := by
        simp [filesLen, moduleFiles, hfile]
      rw [filesLen_append, hone, BitVec.ofNat_add, h.total]

/-- Whatever happens but freeing only appends modules and changes `grub_errno`. -/
theorem netdrvStep_keeps {inv : NetDrv → Prop}
    (happend : ∀ path drv, IsPath path → inv drv → inv (Model.appendNetdrv files path drv))
    (herrno : ∀ drv set, inv drv → inv { drv with grubErrno := set })
    {op : NetdrvOp} (hfree : op ≠ .free) (h : inv drv) : inv (Interface.netdrvStep files drv op) := by
  have hdeps : ∀ (szMod szKv before cur : Bytes) (drv : NetDrv), inv drv →
      inv (pushDeps files szMod szKv before cur drv).1 := by
    intro szMod szKv before
    induction before with
    | nil => exact fun _ _ h => h
    | cons c before ih =>
      intro cur drv h
      simp only [pushDeps]
      split_ifs
      · exact ih _ _ h
      · exact ih _ _ (happend _ _ (isPath_snprintf _) h)
      · exact ih _ _ h
      · exact ih _ _ h
  cases op with
  | push front pcModepBuf szMod szKv szSearch =>
    simp only [Interface.netdrvStep, vtoyPushNetdrv]
    split
    · exact h
    · exact h
    · exact h
    · exact happend _ _ (isPath_snprintf _) (hdeps _ _ _ _ _ h)
  | udeb data filename dir =>
    simp only [Interface.netdrvStep, vtoyUdebEnum]
    split_ifs
    · exact h
    · exact h
    · exact happend _ _ (isPath_snprintf _) h
    · exact h
  | free => exact absurd rfl hfree
  | errno set => exact herrno drv set h

/-- Every operation keeps the list and its lengths together. -/
theorem Collected.netdrvStep (h : Collected files drv) (op : NetdrvOp) :
    Collected files (Interface.netdrvStep files drv op) := by
  by_cases hfree : op = .free
  · subst hfree
    exact ⟨nofun, rfl⟩
  · exact netdrvStep_keeps (fun _ _ hpath h => h.appendNetdrv hpath)
      (fun _ _ h => ⟨h.nodes, h.total⟩) hfree h

/-- So does every run. -/
theorem collected_run (files : GrubFiles) (ops : List NetdrvOp) :
    Collected files (run (Interface.netdrvStep files) {} ops) :=
  run_keeps (fun _ op hinv => hinv.netdrvStep op) ⟨nofun, rfl⟩ ops

end

theorem readLe_of_readBytes {pos : ℤ} {value : BitVec 32} (h : readBytes mem pos 4 = leBytes value) :
    readLe mem pos = value.toNat := by
  simp only [readBytes, leBytes, range_succ, range_zero, nil_append, cons_append, map_cons, map_nil,
    List.cons.injEq, Nat.cast_zero, Nat.cast_one, add_zero, Nat.cast_ofNat] at h
  obtain ⟨h0, h1, h2, h3, -⟩ := h
  rw [readLe, h0, h1, h2, h3]
  simp only [UInt8.toNat_ofNat']
  omega

@[simp] theorem length_leBytes (value : BitVec 32) : (leBytes value).length = 4 := rfl

theorem toInt_ofNat_lt {n : ℕ} (h : n < 2 ^ 31) : (BitVec.ofNat 32 n).toInt = n := by
  have hlt : (BitVec.ofNat 32 n).toNat = n := by
    rw [BitVec.toNat_ofNat, Nat.mod_eq_of_lt (by omega)]
  rw [BitVec.toInt_eq_toNat_cond, hlt, if_pos (by omega)]

variable (arch : GrubArch)

theorem toNat_signExtend {n : ℕ} (h : n < 2 ^ 31) :
    ((BitVec.ofNat 32 n).signExtend arch.sizeBits).toNat = n := by
  have hle := arch.le_sizeBits
  have hint : ((BitVec.ofNat 32 n).signExtend arch.sizeBits).toInt = n := by
    rw [BitVec.toInt_signExtend_of_le hle, toInt_ofNat_lt h]
  rw [BitVec.toInt_eq_toNat_cond] at hint
  split_ifs at hint <;> omega

/-- A file below 2 GiB is read as a whole. -/
theorem grubFileRead_all {content : Bytes} (h : content.length < 2 ^ 31) :
    grubFileRead content ((BitVec.ofNat 32 content.length).signExtend arch.sizeBits) = content := by
  have hle := arch.le_sizeBits
  have hpow : 2 ^ 31 ≤ 2 ^ (arch.sizeBits - 1) := Nat.pow_le_pow_right (by norm_num) (by omega)
  simp only [grubFileRead, toNat_signExtend arch h, min_self]
  rw [if_neg (by omega), take_length]

/-- The bytes that the records and files of a list take. -/
def recordsLen : ℕ :=
  ((moduleFiles files nodes).map fun file => 260 + file.2.length).sum

/-- What has been written for a record. -/
structure RecordAt (mem : ℤ → UInt8) (pos : ℤ) (path content : Bytes) : Prop where
  fileLen : readLe mem pos = content.length
  path : cstr (readBytes mem (pos + 4) 256) = path
  content : readBytes mem (pos + 260) content.length = content

theorem RecordAt.of_writes {pos : ℤ} {content : Bytes} (hpath : IsPath path)
    (hlen : content.length < 2 ^ 31)
    (h0 : readBytes mem pos 4 = leBytes (BitVec.ofNat 32 content.length))
    (h4 : readBytes mem (pos + 4) (path ++ [0]).length = path ++ [0])
    (h260 : readBytes mem (pos + 260) content.length = content) :
    RecordAt mem pos path content where
  fileLen := by
    rw [readLe_of_readBytes h0, BitVec.toNat_ofNat, Nat.mod_eq_of_lt (by omega)]
  path := by
    obtain ⟨hnul, hle⟩ := hpath
    have hsplit : 256 = (path ++ [0]).length + (255 - path.length) := by
      rw [length_append, length_singleton]
      omega
    rw [hsplit, readBytes_add, h4, append_assoc, singleton_append, cstr_append_zero hnul]
  content := h260

/-- **The records of a list** are written one behind the other and are read back. -/
theorem fillRecords_spec (files : GrubFiles) {nodes : List NetdrvNode}
    (hnodes : ∀ node ∈ nodes, NodeOf files node) (hlt : recordsLen files nodes < 2 ^ 31)
    {pos len : ℤ} (hroom : pos + recordsLen files nodes ≤ len) :
    ∃ writes, fillRecords arch files false pos nodes = some writes ∧ Written pos len writes ∧
      ∀ mem, (∀ write ∈ writes, readBytes mem write.1 write.2.length = write.2) →
        decodeRecords mem len nodes.length pos = some (moduleFiles files nodes) := by
  induction nodes generalizing pos with
  | nil =>
    exact ⟨[], rfl, ⟨.nil, nofun, by simpa [recordsLen, moduleFiles] using hroom⟩, fun _ _ => rfl⟩
  | cons node nodes ih =>
    obtain ⟨hnode, hnodes⟩ := forall_mem_cons.1 hnodes
    obtain ⟨content, hopen, hsize⟩ := hnode.opens
    have hfile : (files node.szKoPath).getD [] = content := by rw [hopen, getD_some]
    have hmodules : moduleFiles files (node :: nodes) =
        (node.szKoPath, content) :: moduleFiles files nodes := by
      rw [moduleFiles, map_cons, hfile, moduleFiles]
    have hsum : recordsLen files (node :: nodes) =
        260 + content.length + recordsLen files nodes := by
      rw [recordsLen, hmodules, map_cons, sum_cons, recordsLen]
    have hcontent : content.length < 2 ^ 31 := by omega
    have hint : node.koSize.toInt = content.length := by rw [hsize, toInt_ofNat_lt hcontent]
    have hread : grubFileRead content (node.koSize.signExtend arch.sizeBits) = content := by
      rw [hsize, grubFileRead_all arch hcontent]
    have hpath : snprintf 256 [node.szKoPath] = node.szKoPath := by
      obtain ⟨hnul, hle⟩ := hnode.path
      rw [snprintf, flatMap_singleton, cstr_eq_self hnul, take_of_length_le hle]
    have hle := hnode.path.2
    obtain ⟨writes, hfill, hwritten, hdecode⟩ :=
      @ih hnodes (by omega) (pos + (260 + content.length)) (by omega)
    have hrecord : Written pos len ((pos, leBytes node.koSize) ::
        (pos + 4, node.szKoPath ++ [0]) :: (pos + 260, content) :: writes) := by
      refine ((hwritten.cons ?_).cons ?_).cons ?_
      · omega
      · rw [length_append, length_singleton]
        omega
      · rw [length_leBytes]
        omega
    refine ⟨_, ?_, hrecord, ?_⟩
    · simp [fillRecords, grubFileOpen, hopen, hint, hfill, hread, hpath]
    · intro mem hreads
      obtain ⟨h0, hreads⟩ := forall_mem_cons.1 hreads
      obtain ⟨h4, hreads⟩ := forall_mem_cons.1 hreads
      obtain ⟨h260, hreads⟩ := forall_mem_cons.1 hreads
      rw [hsize] at h0
      have hrecord := RecordAt.of_writes hnode.path hcontent h0 h4 h260
      rw [length_cons, decodeRecords, hrecord.fileLen, if_neg (by omega), hrecord.path,
        hrecord.content, add_assoc, hdecode mem hreads, hmodules]
      rfl

/-- Records that are read lie in the buffer. -/
theorem decodeRecords_fits {len pos : ℤ} {count : ℕ} {modules : List (Bytes × Bytes)}
    (h : decodeRecords mem len count pos = some modules) (hpos : pos ≤ len) :
    pos + ((modules.map fun file => 260 + file.2.length).sum : ℕ) ≤ len := by
  induction count generalizing pos modules with
  | zero =>
    rw [← Option.some.inj h]
    simpa using hpos
  | succ count ih =>
    rw [decodeRecords] at h
    split_ifs at h with hshort
    obtain ⟨rest, hrest, rfl⟩ := map_eq_some_iff.1 h
    have hle := ih hrest (by omega)
    rw [map_cons, sum_cons, length_readBytes]
    omega

/-! ## The buffer -/

section

variable {arch : GrubArch} {files : GrubFiles} {drv : NetDrv}

theorem recordsLen_eq (files : GrubFiles) (nodes : List NetdrvNode) :
    recordsLen files nodes = filesLen files nodes + 260 * nodes.length := by
  induction nodes with
  | nil => rfl
  | cons node nodes ih =>
    simp only [recordsLen, filesLen, moduleFiles, map_cons, sum_cons, length_cons] at ih ⊢
    omega

theorem blobSize_eq (files : GrubFiles) (nodes : List NetdrvNode) :
    blobSize files nodes = filesLen files nodes + 264 * nodes.length := by
  induction nodes with
  | nil => rfl
  | cons node nodes ih =>
    simp only [blobSize, filesLen, moduleFiles, map_cons, sum_cons, length_cons] at ih ⊢
    omega

theorem Collected.buflen (h : Collected files drv) (hcount : drv.count.toNat = drv.list.length) :
    drv.totLen + drv.count * (260 + 4) = BitVec.ofNat 32 (blobSize files drv.list) := by
  have hc : drv.count = BitVec.ofNat 32 drv.list.length := by
    rw [← hcount, BitVec.ofNat_toNat, BitVec.setWidth_eq]
  have h264 : (260 + 4 : BitVec 32) = BitVec.ofNat 32 264 := rfl
  rw [h.total, blobSize_eq, hc, h264, ← BitVec.ofNat_mul, ← BitVec.ofNat_add, mul_comm]

variable {writes : List BufWrite}

/-- The header is written in front of the records.
[core/grub/kern/ipxe_grub.c:712-714] -/
theorem written_header {len : ℤ} (h : Written 8 len writes)
    (count : BitVec 32) : Written 0 len ((0, leBytes 0x11223344) :: (4, leBytes count) :: writes) :=
  (h.cons le_rfl).cons le_rfl

theorem vtoyFillNetdrvData_eq_some {blob : NetdrvBlob} :
    vtoyFillNetdrvData arch files drv = some blob ↔
      drv.count ≠ 0 ∧ 0 ≤ (drv.totLen + drv.count * (260 + 4)).toInt ∧
      ∃ writes, fillRecords arch files drv.grubErrno 8 drv.list = some writes ∧
        blob = ⟨drv.totLen + drv.count * (260 + 4),
          (0, leBytes 0x11223344) :: (4, leBytes drv.count) :: writes⟩ := by
  unfold vtoyFillNetdrvData
  by_cases hcount : drv.count = 0
  · simp [hcount]
  by_cases hneg : (drv.totLen + drv.count * (260 + 4)).toInt < 0
  · simp only [if_neg hcount, if_pos hneg]
    constructor
    · exact nofun
    · rintro ⟨-, hnonneg, -⟩
      omega
  · simp only [if_neg hcount, if_neg hneg, bind_eq_bind, bind_eq_some_iff, Option.some.injEq]
    constructor
    · rintro ⟨writes, hwrites, rfl⟩
      exact ⟨hcount, by omega, writes, hwrites, rfl⟩
    · rintro ⟨-, -, writes, hwrites, rfl⟩
      exact ⟨writes, hwrites, rfl⟩

theorem decodeBlob_eq_some {len : ℤ} {modules : List (Bytes × Bytes)} :
    decodeBlob mem len = some modules ↔
      8 ≤ len ∧ readLe mem 0 = 0x11223344 ∧
        decodeRecords mem len (readLe mem 4) 8 = some modules := by
  unfold decodeBlob
  by_cases hbad : len < 8 ∨ readLe mem 0 ≠ 0x11223344
  · rw [if_pos hbad]
    constructor
    · exact nofun
    · rintro ⟨hlen, hmagic, -⟩
      rcases hbad with hshort | hother
      · omega
      · exact absurd hmagic hother
  · rw [if_neg hbad]
    rw [not_or, not_lt, not_not] at hbad
    exact ⟨fun h => ⟨hbad.1, hbad.2, h⟩, fun h => h.2.2⟩

/-- A buffer with modules is filled only while `grub_errno` is not set.
[core/grub/kern/ipxe_grub.c:721-723, core/grub/kern/file.c:69-71] -/
theorem fillRecords_errno {grubErrno : Bool} {pos : ℤ} {nodes : List NetdrvNode}
    (h : fillRecords arch files grubErrno pos nodes = some writes)
    (hnodes : nodes ≠ []) : grubErrno = false := by
  obtain ⟨node, nodes, rfl⟩ := exists_cons_of_ne_nil hnodes
  obtain ⟨content, hopen, -⟩ := bind_eq_some_iff.1 h
  exact (grubFileOpen_eq_some.1 hopen).1

/-- A buffer that delivers is one that fits. -/
theorem Collected.blobFits (h : Collected files drv)
    (hdelivers : Delivers arch files drv) : BlobFits files drv := by
  obtain ⟨blob, hfill, -, hread⟩ := hdelivers
  obtain ⟨-, -, writes, hwrites, rfl⟩ := vtoyFillNetdrvData_eq_some.1 hfill
  obtain ⟨hheader, hdecode⟩ := hread fun _ => 0
  obtain ⟨hlen, -, hrecords⟩ := decodeBlob_eq_some.1 hdecode
  have hroom : 8 + (recordsLen files drv.list : ℤ) ≤
      (drv.totLen + drv.count * (260 + 4)).toInt := decodeRecords_fits hrecords hlen
  have hint := BitVec.toInt_lt (x := drv.totLen + drv.count * (260 + 4))
  obtain ⟨writes', hwrites', hwritten, -⟩ := fillRecords_spec arch files h.nodes (by omega) hroom
  have hclear : drv.list = [] ∨ drv.grubErrno = false :=
    or_iff_not_imp_left.2 (fillRecords_errno hwrites)
  obtain rfl : writes = writes' := by
    rcases hclear with hnil | hclear
    · rw [hnil] at hwrites hwrites'
      exact Option.some.inj (hwrites.symm.trans hwrites')
    · rw [hclear] at hwrites
      exact Option.some.inj (hwrites.symm.trans hwrites')
  have hbytes := @readBytes_applyWrites (fun _ => 0) _ (written_header hwritten drv.count).ascending
    (4, leBytes drv.count) (mem_cons_of_mem _ mem_cons_self)
  have hcount : drv.count.toNat = drv.list.length := by
    rw [← hheader]
    exact (readLe_of_readBytes hbytes).symm
  rw [h.buflen hcount] at hroom
  have hrecordsLen := recordsLen_eq files drv.list
  have hblobSize := blobSize_eq files drv.list
  rw [BitVec.toInt_eq_toNat_cond, BitVec.toNat_ofNat] at hroom
  have htwo : 2 ≤ drv.list.length ∧ blobSize files drv.list < 2 ^ 31 := by
    split_ifs at hroom <;> omega
  exact ⟨hcount, htwo.1, htwo.2, hclear.resolve_left (ne_nil_of_length_pos (by omega))⟩

/-- A buffer that fits delivers, on every build. -/
theorem Collected.delivers (h : Collected files drv) (hfits : BlobFits files drv)
    (arch : GrubArch) : Delivers arch files drv := by
  obtain ⟨hcount, htwo, hfits, hclear⟩ := hfits
  have hrecordsLen := recordsLen_eq files drv.list
  have hblobSize := blobSize_eq files drv.list
  have hbuflen : (drv.totLen + drv.count * (260 + 4)).toInt = blobSize files drv.list := by
    rw [h.buflen hcount, toInt_ofNat_lt hfits]
  have hroom : 8 + (recordsLen files drv.list : ℤ) ≤
      (drv.totLen + drv.count * (260 + 4)).toInt := by omega
  obtain ⟨writes, hwrites, hwritten, hdecode⟩ :=
    fillRecords_spec arch files h.nodes (by omega) hroom
  rw [← hclear] at hwrites
  have hheader := written_header hwritten drv.count
  have hne : drv.count ≠ 0 := fun h0 => by
    rw [h0] at hcount
    exact absurd hcount.symm (by simpa using (by omega : drv.list.length ≠ 0))
  refine ⟨_, vtoyFillNetdrvData_eq_some.2 ⟨hne, by omega, writes, hwrites, rfl⟩, hheader.inside,
    fun mem => ?_⟩
  have hback : ∀ write ∈ (0, leBytes 0x11223344) :: (4, leBytes drv.count) :: writes,
      readBytes (applyWrites mem ((0, leBytes 0x11223344) :: (4, leBytes drv.count) :: writes))
        write.1 write.2.length = write.2 :=
    fun write hwrite => readBytes_applyWrites hheader.ascending hwrite
  obtain ⟨h0, hback⟩ := forall_mem_cons.1 hback
  obtain ⟨h4, hback⟩ := forall_mem_cons.1 hback
  have hread := readLe_of_readBytes h4
  rw [hcount] at hread
  refine ⟨hread, decodeBlob_eq_some.2 ⟨?_, readLe_of_readBytes h0, ?_⟩⟩
  · simp only
    omega
  · rw [hread]
    exact hdecode _ hback

end

/-- **The driver buffer.**  For every list collected since the start, however often lists were
collected and freed before, the buffer is filled within its length and read as the modules of the
list, exactly if the counter is that of the list, two or more modules take less than 2 GiB and
`grub_errno` is not set.
[core/grub/kern/ipxe_grub.c:552-732] -/
theorem netdrv_blob_delivers (arch : GrubArch) (files : GrubFiles) (ops : List NetdrvOp) :
    Delivers arch files (run (netdrvStep files) {} ops) ↔
      BlobFits files (run (netdrvStep files) {} ops) := by
  have hcollected := collected_run files ops
  exact ⟨hcollected.blobFits, fun hfits => hcollected.delivers hfits arch⟩

def bits32 : GrubArch where
  sizeBits := 32
  le_sizeBits := le_refl _

/-- Every file can be opened and holds three bytes. -/
def smallFiles : GrubFiles := fun _ => some [1, 2, 3]

def oneUdeb : List NetdrvOp := [.udeb (ascii "d") (ascii "nbd-modules-5.udeb") false]

/-- Two modules, freed and collected again. -/
def twoUdebsTwice : List NetdrvOp :=
  [.udeb (ascii "d") (ascii "nbd-modules-5.udeb") false,
    .udeb (ascii "d") (ascii "nic-modules-5.udeb") false, .free,
    .udeb (ascii "d") (ascii "nbd-modules-5.udeb") false,
    .udeb (ascii "d") (ascii "nic-modules-5.udeb") false]

/-- A card's driver with its dependency, and `nbd`, which is listed and not there. -/
def nbdMissing : List NetdrvOp :=
  let pcModepBuf := textBuf (ascii "n/e.ko: n/mii.ko\nn/nbd.ko:\n")
  [.push [] pcModepBuf (ascii "m") (ascii "5") (ascii "/e.ko:"),
    .push [] pcModepBuf (ascii "m") (ascii "5") (ascii "/nbd.ko:")]

def withoutNbd : GrubFiles := fun path => if path = ascii "m5/n/nbd.ko" then none else some [1, 2, 3]

/-- **One module is written over the end of the buffer**, and once modules have been freed the header
counts more than there are.  If the last module that is looked for is not there, those collected
before it are read through a NULL pointer, as is a package that cannot be opened.
[core/grub/kern/ipxe_grub.c:690-691,708-723,1009] -/
theorem netdrv_blob_overrun :
    (∃ blob ∈ vtoyFillNetdrvData bits32 smallFiles (run (netdrvStep smallFiles) {} oneUdeb),
      ∃ write ∈ blob.writes, blob.buflen.toInt < write.1 + write.2.length) ∧
    (∃ blob ∈ vtoyFillNetdrvData bits32 smallFiles (run (netdrvStep smallFiles) {} twoUdebsTwice),
      readLe (applyWrites (fun _ => 0) blob.writes) 4 = 4 ∧
      (run (netdrvStep smallFiles) {} twoUdebsTwice).list.length = 2) ∧
    ((run (netdrvStep withoutNbd) {} nbdMissing).list.length = 2 ∧
      fillRecords bits32 withoutNbd (run (netdrvStep withoutNbd) {} nbdMissing).grubErrno 8
        (run (netdrvStep withoutNbd) {} nbdMissing).list = none) ∧
    vtoyUdebEnum (fun _ => none) (ascii "d") (ascii "nbd-modules-5.udeb") false {} = none := by
  decide +kernel

/-- The counters are the number and the total size of the modules on the list. -/
def Counted (drv : NetDrv) : Prop :=
  drv.count.toInt = drv.list.length ∧ drv.totLen.toInt = filesLen files drv.list

/-- Nothing is freed that has been counted, and the list that is left has less than 2 GiB of
modules, and fewer than an `int` can count. -/
def Countable (drv : NetDrv) (op : NetdrvOp) : Prop :=
  (op = .free → drv.list = []) ∧ (netdrvStep files drv op).list.length < 2 ^ 31 ∧
    filesLen files (netdrvStep files drv op).list < 2 ^ 31

theorem toInt_ofNat_eq_iff (n : ℕ) : (BitVec.ofNat 32 n).toInt = n ↔ n < 2 ^ 31 := by
  refine ⟨fun h => ?_, toInt_ofNat_lt⟩
  have hlt : (BitVec.ofNat 32 n).toInt < 2 ^ 31 := BitVec.toInt_lt
  omega

section

variable {files : GrubFiles} {drv : NetDrv}

/-- **One step** from counters that are right. -/
theorem counted_netdrvStep (hcollected : Collected files drv) (h : Counted files drv)
    (op : NetdrvOp) : Counted files (netdrvStep files drv op) ↔ Countable files drv op := by
  have hcount : drv.count = BitVec.ofNat 32 drv.list.length := by
    rw [← BitVec.toInt_inj, h.1, (toInt_ofNat_eq_iff _).2]
    have hlt : drv.count.toInt < 2 ^ 31 := BitVec.toInt_lt
    have := h.1
    omega
  have htotal := (hcollected.netdrvStep op).total
  by_cases hfree : op = .free
  · subst hfree
    have hzero : Counted files (netdrvStep files drv .free) ↔ drv.list.length = 0 := by
      rw [Counted]
      simp [netdrvStep, vtoyFreeNetdrv, filesLen, moduleFiles, h.1]
    rw [hzero, Countable]
    simp [netdrvStep, vtoyFreeNetdrv, filesLen, moduleFiles]
  · have happend : ∀ path drv, IsPath path → drv.count = BitVec.ofNat 32 drv.list.length →
        (appendNetdrv files path drv).count =
          BitVec.ofNat 32 (appendNetdrv files path drv).list.length := by
      intro path drv _ hdrv
      unfold appendNetdrv
      cases grubFileOpen files drv.grubErrno path with
      | none => exact hdrv
      | some content => simp [hdrv, BitVec.ofNat_add]
    have hpushed := netdrvStep_keeps happend (fun _ _ h => h) hfree hcount
    rw [Counted, hpushed, htotal, toInt_ofNat_eq_iff, toInt_ofNat_eq_iff, Countable,
      and_iff_right fun hop => absurd hop hfree]

end

/-- **The counters.**  In a session they are right all the time exactly if no command frees modules
that were counted, and the modules never take 2 GiB.
[core/grub/kern/ipxe_grub.c:552-732] -/
theorem netdrv_counted (files : GrubFiles) (ops : List NetdrvOp) :
    (∀ done, done <+: ops → Counted files (run (netdrvStep files) {} done)) ↔
      Meets (netdrvStep files) (Countable files) {} ops := by
  have hstart : Collected files {} ∧ Counted files {} := ⟨⟨nofun, rfl⟩, rfl, rfl⟩
  refine meets_iff_forall (fun drv (h : Collected files drv ∧ Counted files drv) => h.2)
    (fun drv op h hop => ?_) (fun drv op h => ?_) hstart ops
  · exact ⟨h.1.netdrvStep op, (counted_netdrvStep h.1 h.2 op).2 hop⟩
  · exact (counted_netdrvStep h.1 h.2 op).1

/-- A module that is freed is still counted. -/
theorem netdrv_counted_freed :
    (run (netdrvStep smallFiles) {} (oneUdeb ++ [.free])).count = 1 ∧
      (run (netdrvStep smallFiles) {} (oneUdeb ++ [.free])).list = [] := by
  decide +kernel

end Ipxe.Analysis
