import Ipxe.Interface.DriverModules

/-!
# The order in which modules are collected

`vtoy_push_netdrv` goes through the dependencies of a line from the right and skips those that are
in the list; the module itself it always appends.
-/

namespace Ipxe.Analysis

open Library Model Interface List Option

variable {line szSearch path : Bytes}

theorem vtoySplitLine_append (h : ∀ c ∈ line, c ≠ 0 ∧ c ≠ 0x0a) (rest : Bytes) :
    vtoySplitLine (line ++ rest) = line ++ vtoySplitLine rest := by
  induction line with
  | nil => rfl
  | cons c line ih =>
    obtain ⟨⟨hzero, hnewline⟩, hline⟩ := forall_mem_cons.1 h
    rw [cons_append, vtoySplitLine, if_neg hzero, if_neg hnewline, ih hline, cons_append]

theorem bufLines_append (h : ∀ c ∈ line, c ≠ 0) (cur rest : Bytes) :
    bufLines cur (line ++ rest) = bufLines (cur ++ line) rest := by
  induction line generalizing cur with
  | nil => rw [nil_append, append_nil]
  | cons c line ih =>
    obtain ⟨hzero, hline⟩ := forall_mem_cons.1 h
    rw [cons_append, bufLines, if_pos hzero, ih hline, append_assoc, singleton_append]

theorem mem_line {entry : DepEntry} {c : UInt8} (h : c ∈ entry.line) : c ≠ 0 ∧ c ≠ 0x0a := by
  rcases mem_append.1 h with hname | hrest
  · obtain ⟨hzero, hnewline, -⟩ := entry.name.plain c hname
    exact ⟨hzero, hnewline⟩
  rcases mem_cons.1 hrest with rfl | hdeps
  · decide
  obtain ⟨dep, -, hdep⟩ := mem_flatMap.1 hdeps
  rcases mem_cons.1 hdep with rfl | hchars
  · decide
  · obtain ⟨hzero, hnewline, -⟩ := dep.plain c hchars
    exact ⟨hzero, hnewline⟩

theorem line_ne_nil (entry : DepEntry) : entry.line ≠ [] :=
  append_ne_nil_of_left_ne_nil entry.name.nonempty _

variable (entries : List DepEntry)

/-- The lines that are gone through are those of `depmod`. -/
theorem bufLines_modulesDep :
    bufLines [] (textBuf (modulesDep entries)) = entries.map DepEntry.line := by
  rw [textBuf]
  induction entries with
  | nil => rfl
  | cons entry entries ih =>
    have hsplit : modulesDep (entry :: entries) ++ [0, 0] =
        entry.line ++ 0x0a :: (modulesDep entries ++ [0, 0]) := by
      simp [modulesDep]
    rw [hsplit, vtoySplitLine_append fun c hc => mem_line hc, vtoySplitLine, if_neg (by decide),
      if_pos rfl, bufLines_append fun c hc => (mem_line hc).1, nil_append, bufLines,
      if_neg (by decide), if_neg (line_ne_nil entry), ih, map_cons]

/-- No line is found, or that of an entry. -/
theorem vtoyFindDepLine_cases (szKo front : Bytes) (entries : List DepEntry) :
    vtoyFindDepLine szKo front (entries.map DepEntry.line) = some none ∨
      ∃ entry ∈ entries,
        vtoyFindDepLine szKo front (entries.map DepEntry.line) = some (some entry.line) := by
  induction entries generalizing front with
  | nil => exact .inl rfl
  | cons entry entries ih =>
    have hcolon : (0x3a : UInt8) ∈ entry.line := mem_append_right _ mem_cons_self
    rw [map_cons, vtoyFindDepLine]
    split_ifs with hmatch
    · exact .inr ⟨entry, mem_cons_self, rfl⟩
    · rcases ih (front ++ entry.line ++ [0]) with hnone | ⟨found, hfound, hline⟩
      · exact .inl hnone
      · exact .inr ⟨found, mem_cons_of_mem _ hfound, hline⟩

section

variable {kernel : KernelModules}

/-- One turn of the loop that meets a space. -/
def pushDep (kernel : KernelModules) (drv : NetDrv) (name : ModuleName) : NetDrv :=
  if vtoyFindNetdrv drv (kernel.path name) then drv
  else appendNetdrv kernel.files (kernel.path name) drv

theorem pushDeps_name {name : Bytes} (h : ∀ c ∈ name, c ≠ 0x20 ∧ c ≠ 0x3a)
    (before cur : Bytes) (drv : NetDrv) :
    pushDeps kernel.files kernel.szMod kernel.szKv (name.reverse ++ before) cur drv =
      pushDeps kernel.files kernel.szMod kernel.szKv before (name ++ cur) drv := by
  induction name generalizing before cur with
  | nil => rfl
  | cons c name ih =>
    obtain ⟨⟨hspace, hcolon⟩, hname⟩ := forall_mem_cons.1 h
    rw [reverse_cons, append_assoc, ih hname, singleton_append, pushDeps,
      if_neg hspace, if_neg hcolon, cons_append]

/-- The dependencies are gone through from the right.
[core/grub/kern/ipxe_grub.c:581-633] -/
theorem pushDeps_depsText (deps : List ModuleName) (before : Bytes) (drv : NetDrv) :
    pushDeps kernel.files kernel.szMod kernel.szKv ((depsText deps).reverse ++ before) [] drv =
      pushDeps kernel.files kernel.szMod kernel.szKv before []
        (deps.reverse.foldl (pushDep kernel) drv) := by
  induction deps using List.reverseRecOn generalizing before drv with
  | nil => rfl
  | append_singleton deps dep ih =>
    have htext : (depsText (deps ++ [dep])).reverse ++ before =
        dep.chars.reverse ++ 0x20 :: ((depsText deps).reverse ++ before) := by
      simp [depsText]
    have hplain : ∀ c ∈ dep.chars, c ≠ 0x20 ∧ c ≠ 0x3a := fun c hc => (dep.plain c hc).2.2
    rw [htext, pushDeps_name hplain, pushDeps, append_nil, ih,
      reverse_append, reverse_singleton, singleton_append, foldl_cons]
    rfl

/-- **Collecting the module of a line**: its dependencies from the right, and then the
module. -/
theorem pushStep_found {entry : DepEntry} (h : kernel.Finds szSearch entry) (drv : NetDrv) :
    kernel.pushStep drv szSearch =
      appendNetdrv kernel.files (kernel.path entry.name)
        (entry.deps.reverse.foldl (pushDep kernel) drv) := by
  obtain ⟨first, name, hname⟩ := exists_cons_of_ne_nil entry.name.nonempty
  have hline : entry.line = first :: (name ++ 0x3a :: depsText entry.deps) := by
    rw [DepEntry.line, hname, cons_append]
  have hplain : ∀ c ∈ name, c ≠ 0x20 ∧ c ≠ 0x3a := fun c hc =>
    (entry.name.plain c (hname ▸ mem_cons_of_mem _ hc)).2.2
  have hreverse : (name ++ 0x3a :: depsText entry.deps).reverse =
      (depsText entry.deps).reverse ++ 0x3a :: (name.reverse ++ []) := by
    simp
  rw [KernelModules.Finds, hline] at h
  rw [KernelModules.pushStep, vtoyPushNetdrv, h]
  simp only [hreverse, pushDeps_depsText]
  rw [pushDeps, if_neg (by decide), if_pos rfl, pushDeps_name hplain, pushDeps, append_nil, ← hname]
  rfl

theorem pushStep_notFound (h : vtoyFindDepLine szSearch kernel.front
      (bufLines [] (textBuf (modulesDep kernel.entries))) = some none) (drv : NetDrv) :
    kernel.pushStep drv szSearch = drv := by
  rw [KernelModules.pushStep, vtoyPushNetdrv, h]
  rfl

theorem finds_cases (kernel : KernelModules) (szSearch : Bytes) :
    vtoyFindDepLine szSearch kernel.front (bufLines [] (textBuf (modulesDep kernel.entries))) =
        some none ∨
      ∃ entry ∈ kernel.entries, kernel.Finds szSearch entry := by
  have hcases := vtoyFindDepLine_cases szSearch kernel.front kernel.entries
  rwa [← bufLines_modulesDep] at hcases

def paths (drv : NetDrv) : List Bytes := drv.list.map NetdrvNode.szKoPath

variable {drv : NetDrv}

/-- A module is found by its path. -/
theorem vtoyFindNetdrv_iff : vtoyFindNetdrv drv path = true ↔ path ∈ paths drv := by
  simp [vtoyFindNetdrv, paths]

/-- Nothing is appended while `grub_errno` is set.
[core/grub/kern/file.c:69-71] -/
theorem appendNetdrv_errno {files : GrubFiles} (h : drv.grubErrno = true) :
    appendNetdrv files path drv = drv := by
  rw [appendNetdrv, grubFileOpen, if_pos h, ← h]

/-- A module is appended, or the list stays as it is and `grub_errno` is set. -/
theorem appendNetdrv_cases (files : GrubFiles) (path : Bytes) (drv : NetDrv) :
    paths (appendNetdrv files path drv) = paths drv ++ [path] ∨
      (appendNetdrv files path drv).grubErrno = true ∧
        paths (appendNetdrv files path drv) = paths drv := by
  unfold appendNetdrv
  cases grubFileOpen files drv.grubErrno path with
  | none => exact .inr ⟨rfl, rfl⟩
  | some content => exact .inl (by simp [paths])

/-- The dependencies of a line while `grub_errno` is set. -/
theorem foldl_pushDep_errno (h : drv.grubErrno = true) (names : List ModuleName) :
    names.foldl (pushDep kernel) drv = drv := by
  induction names with
  | nil => rfl
  | cons name names ih =>
    rw [foldl_cons, pushDep, appendNetdrv_errno h, ite_self, ih]

/-- One dependency is added to the list, unless it is there or cannot be opened. -/
theorem pushDep_cases (kernel : KernelModules) (name : ModuleName) (drv : NetDrv) :
    paths (pushDep kernel drv name) = addNew (paths drv) (kernel.path name) ∨
      (pushDep kernel drv name).grubErrno = true ∧ paths (pushDep kernel drv name) = paths drv := by
  unfold pushDep addNew
  by_cases hfound : kernel.path name ∈ paths drv
  · rw [if_pos (vtoyFindNetdrv_iff.2 hfound), if_pos hfound]
    exact .inl rfl
  · rw [if_neg (mt vtoyFindNetdrv_iff.1 hfound), if_neg hfound]
    exact appendNetdrv_cases kernel.files (kernel.path name) drv

section

variable {dep : Bytes → Bytes → Prop} {drv : NetDrv}

/-- The dependencies of a line keep the list in order, and all of them are in it unless one of them
could not be opened.
[core/grub/kern/ipxe_grub.c:581-633] -/
theorem scheduled_foldl_pushDep {names : List ModuleName} (h : Scheduled dep (paths drv))
    (hnames : Supplied dep (paths drv) (names.map kernel.path)) :
    Scheduled dep (paths (names.foldl (pushDep kernel) drv)) ∧
      ((names.foldl (pushDep kernel) drv).grubErrno = true ∨
        paths (names.foldl (pushDep kernel) drv) =
          (names.map kernel.path).foldl addNew (paths drv)) := by
  induction names generalizing drv with
  | nil => exact ⟨h, .inr rfl⟩
  | cons name names ih =>
    rw [foldl_cons, map_cons, foldl_cons]
    rcases pushDep_cases kernel name drv with hadded | ⟨herrno, hsame⟩
    · rw [← hadded]
      refine ih (hadded ▸ h.addNew hnames.head) (hnames.tail.mono fun other hother => ?_)
      rw [hadded, mem_addNew]
      simpa using hother
    · rw [foldl_pushDep_errno herrno, hsame]
      exact ⟨h, .inl herrno⟩

/-- **Collecting a module keeps the list in order.** -/
theorem scheduled_pushStep (hdep : ∀ path need, kernel.DependsOn path need → dep path need)
    (hordered : kernel.OrderedBy dep) (h : Scheduled dep (paths drv))
    (hfresh : kernel.Fresh drv szSearch) :
    Scheduled dep (paths (kernel.pushStep drv szSearch)) := by
  rcases finds_cases kernel szSearch with hnone | ⟨entry, hentry, hfinds⟩
  · rwa [pushStep_notFound hnone]
  have hsupplied := hordered entry hentry
  rw [map_append] at hsupplied
  obtain ⟨hdeps, hneeds⟩ := hsupplied.of_concat
  rw [pushStep_found hfinds]
  obtain ⟨hscheduled, herrno | hpaths⟩ :=
    scheduled_foldl_pushDep h (hdeps.mono (nil_subset (paths drv)))
  · -- a dependency could not be opened, and then neither can the module
    rwa [appendNetdrv_errno herrno]
  rcases appendNetdrv_cases kernel.files (kernel.path entry.name)
    (entry.deps.reverse.foldl (pushDep kernel) drv) with hadded | ⟨-, hsame⟩
  · rw [hadded]
    refine hscheduled.concat (fun hmem => ?_) fun need hneed => ?_
    · rw [hpaths, mem_foldl_addNew] at hmem
      rcases hmem with hold | hself
      · exact hfresh entry hentry hfinds hold
      · -- the module would depend on itself
        obtain ⟨need, hneed, hpath⟩ := mem_map.1 hself
        exact hsupplied.irrefl (mem_append_left _ hself)
          (hdep _ _ ⟨entry, hentry, rfl, need, mem_reverse.1 hneed, hpath⟩)
    · rw [hpaths, mem_foldl_addNew]
      exact .inr (hneeds need hneed)
  · rwa [hsame]

end

end

/-- **The order of driver modules.**  If `modules.dep` is as `depmod` writes it and no module is looked
for that has been collected, no module is in the list twice and each comes after those that its
line names, whichever files can be opened.
[core/grub/kern/ipxe_grub.c:465-667] -/
theorem netdrv_scheduled (kernel : KernelModules) (hkernel : kernel.WellOrdered)
    (searches : List Bytes) (hfresh : Meets kernel.pushStep kernel.Fresh {} searches) :
    Scheduled kernel.DependsOn
      ((run kernel.pushStep {} searches).list.map NetdrvNode.szKoPath) := by
  have hstep : ∀ drv szSearch, Scheduled kernel.DependsOn (paths drv) →
      kernel.Fresh drv szSearch → Scheduled kernel.DependsOn (paths (kernel.pushStep drv szSearch)) :=
    fun _ _ hinv hpush => scheduled_pushStep (fun _ _ h => h) hkernel hinv hpush
  exact run_invariant hstep scheduled_nil hfresh

/-- A search of a text as `depmod` writes it ends.
[core/grub/kern/ipxe_grub.c:552-667] -/
theorem vtoyPushNetdrv_returns (kernel : KernelModules) (szSearch : Bytes) (drv : NetDrv) :
    vtoyPushNetdrv kernel.files kernel.front (textBuf (modulesDep kernel.entries)) kernel.szMod
      kernel.szKv szSearch drv = some (kernel.pushStep drv szSearch) := by
  have hsome : (vtoyPushNetdrv kernel.files kernel.front (textBuf (modulesDep kernel.entries))
      kernel.szMod kernel.szKv szSearch drv).isSome := by
    rcases finds_cases kernel szSearch with hnone | ⟨entry, -, hfinds⟩
    · rw [vtoyPushNetdrv, hnone]
      rfl
    · rw [KernelModules.Finds] at hfinds
      rw [vtoyPushNetdrv, hfinds]
      cases entry.line <;> rfl
  obtain ⟨drv', hdrv⟩ := isSome_iff_exists.1 hsome
  rw [KernelModules.pushStep, hdrv, getD_some]

/-- One kernel version: its searches, one after another, or nothing but `grub_errno` is changed.
[core/grub/kern/ipxe_grub.c:734-809] -/
theorem vtoyResolveNetdrv_returns {kernel : KernelModules}
    (hmodep : ∀ modep ∈ kernel.files (kernel.file "/modules.dep"), modep = modulesDep kernel.entries)
    (pciID : Bytes) (drv : NetDrv) :
    ∃ drv', vtoyResolveNetdrv kernel.files kernel.front kernel.szMod kernel.szKv pciID drv = some drv' ∧
      drv'.list = (run kernel.pushStep drv (kernel.searches pciID drv)).list := by
  simp only [vtoyResolveNetdrv, KernelModules.searches, KernelModules.file]
  cases hdep : grubFileOpen kernel.files drv.grubErrno
      (snprintf 256 [kernel.szMod, kernel.szKv, ascii "/modules.dep"]) with
  | none => exact ⟨_, rfl, rfl⟩
  | some modep =>
    cases grubFileOpen kernel.files drv.grubErrno
        (snprintf 256 [kernel.szMod, kernel.szKv, ascii "/modules.alias"]) with
    | none => exact ⟨_, rfl, rfl⟩
    | some modali =>
      rw [hmodep modep (grubFileOpen_eq_some.1 hdep).2]
      exact ⟨_, foldlM_eq_run (fun szSearch _ drv => vtoyPushNetdrv_returns kernel szSearch drv) drv,
        rfl⟩

/-- **The modules for a network card.**  `vtoy_netdrv_sfs` collects them for each kernel version on one
list.  If each `modules.dep` that is there is as `depmod` writes it and no module is looked for
that has been collected, the list stays in order, whichever files can be opened.
[core/grub/kern/ipxe_grub.c:734-809,951-956] -/
theorem netdrv_resolved (kernels : List KernelModules) (pciID : Bytes) (start : NetDrv)
    (hstart : Scheduled (DependsIn kernels) (start.list.map NetdrvNode.szKoPath))
    (hmodep : ∀ kernel ∈ kernels, ∀ modep ∈ kernel.files (kernel.file "/modules.dep"),
      modep = modulesDep kernel.entries)
    (hordered : ∀ kernel ∈ kernels, kernel.OrderedBy (DependsIn kernels))
    (hfresh : Meets (resolveStep pciID) (fun drv kernel => kernel.AllFresh pciID drv) start kernels) :
    ∃ drv, kernels.foldlM (fun drv kernel =>
        vtoyResolveNetdrv kernel.files kernel.front kernel.szMod kernel.szKv pciID drv) start =
          some drv ∧
      Scheduled (DependsIn kernels) (drv.list.map NetdrvNode.szKoPath) := by
  have hstep : ∀ drv kernel, Scheduled (DependsIn kernels) (paths drv) →
      kernel.AllFresh pciID drv ∧ kernel ∈ kernels →
      Scheduled (DependsIn kernels) (paths (resolveStep pciID drv kernel)) := by
    rintro drv kernel h ⟨hfresh, hmem⟩
    obtain ⟨drv', hdrv, hlist⟩ := vtoyResolveNetdrv_returns (hmodep kernel hmem) pciID drv
    rw [resolveStep, hdrv, getD_some, paths, hlist]
    exact @run_invariant _ _ _ _ (fun drv => Scheduled (DependsIn kernels) (paths drv))
      (fun _ _ => scheduled_pushStep (fun _ _ hdep => ⟨kernel, hmem, hdep⟩) (hordered kernel hmem))
      _ _ h hfresh
  refine ⟨_, foldlM_eq_run (fun kernel hmem drv => ?_) start,
    run_invariant hstep hstart (hfresh.and ?_)⟩
  · obtain ⟨drv', hdrv, -⟩ := vtoyResolveNetdrv_returns (hmodep kernel hmem) pciID drv
    rw [resolveStep, hdrv, getD_some]
  · exact meets_of_forall (fun _ hmem _ => hmem) start

/-- What `OrderedBy` says, checked along a line. -/
def NeedsMet (kernels : List KernelModules) : List Bytes → List Bytes → Prop
  | _, [] => True
  | done, path :: rest =>
    (∀ kernel ∈ kernels, ∀ entry ∈ kernel.entries, kernel.path entry.name = path →
      ∀ dep ∈ entry.deps, kernel.path dep ∈ done) ∧
    NeedsMet kernels (done ++ [path]) rest

/-- What is checked along a line is what the order says. -/
theorem supplied_of_needsMet {kernels : List KernelModules} {done items : List Bytes}
    (h : NeedsMet kernels done items) : Supplied (DependsIn kernels) done items := by
  induction items generalizing done with
  | nil => exact supplied_nil done
  | cons path rest ih =>
    obtain ⟨hpath, hrest⟩ := h
    refine (forall_splits_cons path rest).2 ⟨?_, fun before item after heq need hneed => ?_⟩
    · rintro need ⟨kernel, hkernel, entry, hentry, hname, dep, hdep, rfl⟩
      exact mem_append_left _ (hpath kernel hkernel entry hentry hname dep hdep)
    · have hmem := ih hrest before item after heq need hneed
      rwa [append_assoc] at hmem

instance decidableNeedsMet (kernels : List KernelModules) :
    (done items : List Bytes) → Decidable (NeedsMet kernels done items)
  | _, [] => .isTrue trivial
  | done, path :: rest =>
    have := decidableNeedsMet kernels (done ++ [path]) rest
    inferInstanceAs (Decidable ((∀ kernel ∈ kernels, ∀ entry ∈ kernel.entries, _ → ∀ dep ∈ entry.deps, _) ∧ _))

def e1000 : ModuleName := ⟨ascii "n/e1000.ko", by decide, by decide +kernel⟩

def mii : ModuleName := ⟨ascii "n/mii.ko", by decide, by decide +kernel⟩

def ptp : ModuleName := ⟨ascii "n/ptp.ko", by decide, by decide +kernel⟩

def nbd : ModuleName := ⟨ascii "n/nbd.ko", by decide, by decide +kernel⟩

/-- A kernel version of which every file can be opened. -/
def openKernel : KernelModules where
  files := fun _ => some []
  front := []
  szMod := ascii "m"
  szKv := ascii "5"
  entries := entries

/-- `e1000` needs `mii`, which needs `ptp`. -/
def cardKernel : KernelModules :=
  openKernel [⟨e1000, [mii, ptp]⟩, ⟨mii, [ptp]⟩, ⟨ptp, []⟩, ⟨nbd, []⟩]

theorem netdrv_scheduled_card :
    Scheduled cardKernel.DependsOn ((run cardKernel.pushStep {}
      [ascii "/e1000.ko:", ascii "/nbd.ko:"]).list.map NetdrvNode.szKoPath) := by
  refine netdrv_scheduled cardKernel (fun entry hentry before item after heq need hneed => ?_) _
    (by decide +kernel)
  have hmet : ∀ entry ∈ cardKernel.entries,
      NeedsMet [cardKernel] [] ((entry.deps.reverse ++ [entry.name]).map cardKernel.path) := by
    decide +kernel
  exact supplied_of_needsMet (hmet entry hentry) before item after heq need ⟨_, .head _, hneed⟩

/-- The same with `modules.dep`, and without aliases. -/
def bootKernel (szKv : Bytes) : KernelModules :=
  { cardKernel with
    files := fun path =>
      some (if path = ascii "m5/modules.dep" ∨ path = ascii "m6/modules.dep" then
        modulesDep cardKernel.entries else [])
    szKv := szKv }

theorem netdrv_resolved_boot : ∃ drv, [bootKernel (ascii "5"), bootKernel (ascii "6")].foldlM
      (fun drv kernel => vtoyResolveNetdrv kernel.files kernel.front kernel.szMod kernel.szKv
        [0x86, 0x80, 0x15, 0x33] drv) {} = some drv ∧
    Scheduled (DependsIn [bootKernel (ascii "5"), bootKernel (ascii "6")])
      (drv.list.map NetdrvNode.szKoPath) := by
  have hmet : ∀ kernel ∈ [bootKernel (ascii "5"), bootKernel (ascii "6")],
      ∀ entry ∈ kernel.entries, NeedsMet [bootKernel (ascii "5"), bootKernel (ascii "6")] []
        ((entry.deps.reverse ++ [entry.name]).map kernel.path) := by
    decide +kernel
  exact netdrv_resolved _ _ _ scheduled_nil (by decide +kernel)
    (fun kernel hkernel entry hentry => supplied_of_needsMet (hmet kernel hkernel entry hentry))
    (by decide +kernel)

/-- A line in which a dependency stands behind one that needs it. -/
def unorderedKernel : KernelModules := openKernel [⟨e1000, [ptp, mii]⟩, ⟨mii, [ptp]⟩, ⟨ptp, []⟩]

/-- **A module is collected twice** if it has been collected as a dependency before.  Another order
in `modules.dep` is not put right, and a line without a colon is searched for ever.
[core/grub/kern/ipxe_grub.c:474-481,596-662] -/
theorem netdrv_not_scheduled :
    ¬ Scheduled cardKernel.DependsOn ((run cardKernel.pushStep {}
      [ascii "/e1000.ko:", ascii "/mii.ko:"]).list.map NetdrvNode.szKoPath) ∧
    ¬ Scheduled unorderedKernel.DependsOn ((run unorderedKernel.pushStep {}
      [ascii "/e1000.ko:"]).list.map NetdrvNode.szKoPath) ∧
    vtoyPushNetdrv cardKernel.files [] (textBuf (ascii "# modules\n" ++
      modulesDep cardKernel.entries)) cardKernel.szMod cardKernel.szKv (ascii "/nbd.ko:") {} =
      none := by
  refine ⟨fun h => absurd h.nodup (by decide +kernel), fun h => ?_, by rfl⟩
  have hlist : (run unorderedKernel.pushStep {} [ascii "/e1000.ko:"]).list.map
      NetdrvNode.szKoPath = [] ++ unorderedKernel.path mii ::
        [unorderedKernel.path ptp, unorderedKernel.path e1000] := by decide +kernel
  have hneeds : unorderedKernel.DependsOn (unorderedKernel.path mii) (unorderedKernel.path ptp) :=
    ⟨⟨mii, [ptp]⟩, .tail _ (.head _), rfl, ptp, .head _, rfl⟩
  exact not_mem_nil (h.supplied _ _ _ hlist _ hneeds)

/-! ## The search for a line -/

/-- The lines of a text as it is searched, those behind an empty one too. -/
def textLines (content : Bytes) : List Bytes := (textBuf content).splitOn 0

/-- The path in front of the colon of a line ends with a name. -/
def Targets (name line : Bytes) : Prop := 0x3a ∈ line ∧ name <:+ beforeColon line

instance (name line : Bytes) : Decidable (Targets name line) := inferInstanceAs (Decidable (_ ∧ _))

/-- The search ends, no comparison begins before its line, and the first line is found whose path
ends with the name. -/
def FindsFirst (front content name : Bytes) : Prop :=
  ∃ turns, findDepLineLoop (name ++ [0x3a]) turns false front (bufLines [] (textBuf content)) =
    some ((textLines content).find? (Targets name ·), false)

section

variable {szKo front : Bytes} {lines : List Bytes}

/-- At a line without a colon the loop stays. [core/grub/kern/ipxe_grub.c:474-480] -/
theorem findDepLineLoop_stuck (hcolon : 0x3a ∉ line) (turns : ℕ) (strayed : Bool) :
    findDepLineLoop szKo turns strayed front (line :: lines) = none := by
  induction turns with
  | zero => rfl
  | succ turns ih => rw [findDepLineLoop, if_pos hcolon, ih]

/-- **What the loop ends with**, unless it stops at a line for ever. -/
theorem findDepLineLoop_eq (strayed : Bool) :
    (findDepLineLoop szKo (lines.length + 1) strayed front lines).map Prod.fst =
      vtoyFindDepLine szKo front lines := by
  induction lines generalizing front strayed with
  | nil => rfl
  | cons line lines ih =>
    by_cases hcolon : 0x3a ∉ line
    · rw [findDepLineLoop_stuck hcolon, vtoyFindDepLine, if_pos hcolon]
      rfl
    · rw [findDepLineLoop, vtoyFindDepLine, if_neg hcolon, if_neg hcolon, length_cons]
      split_ifs
      · rfl
      · exact ih _

theorem findDepLineLoop_strayed {turns : ℕ} {result : Option Bytes × Bool}
    (h : findDepLineLoop szKo turns true front lines = some result) : result.2 = true := by
  induction turns generalizing front lines with
  | zero => cases h
  | succ turns ih =>
    cases lines with
    | nil => cases h; rfl
    | cons line lines =>
      rw [findDepLineLoop] at h
      split_ifs at h
      · cases h; rfl
      · exact ih h
      · exact ih h

theorem suffix_target {name : Bytes} (h : name.length ≤ path.length) :
    name ++ [0x3a] <:+ front ++ path ++ [0x3a] ↔ name <:+ path := by
  constructor
  · intro hsuffix
    rcases suffix_concat_iff.1 hsuffix with hnil | ⟨other, hother, hsuffix⟩
    · simp at hnil
    · obtain rfl := append_inj_left' hother rfl
      exact suffix_of_suffix_length_le hsuffix (suffix_append front path) h
  · rintro ⟨before, rfl⟩
    exact ⟨front ++ before, by simp⟩

/-- **The loop over the lines** in front of an empty one. -/
theorem findDepLineLoop_iff (name : Bytes) (result : Option Bytes) :
    (∃ turns, findDepLineLoop (name ++ [0x3a]) turns false front lines = some (result, false)) ↔
      (∀ line ∈ lines.takeWhile (¬ Targets name ·),
        0x3a ∈ line ∧ name.length ≤ (beforeColon line).length) ∧
      result = lines.find? (Targets name ·) := by
  induction lines generalizing front with
  | nil =>
    refine ⟨?_, fun h => ⟨1, by rw [h.2]; rfl⟩⟩
    rintro ⟨_ | turns, h⟩ <;> cases h
    simp
  | cons line lines ih =>
    -- a line that stops the search or is compared from before its start is no target
    by_cases hgood : 0x3a ∈ line ∧ name.length ≤ (beforeColon line).length
    · obtain ⟨hcolon, hlen⟩ := hgood
      have hstep : ∀ turns, findDepLineLoop (name ++ [0x3a]) (turns + 1) false front (line :: lines) =
          if Targets name line then some (some line, false)
          else findDepLineLoop (name ++ [0x3a]) turns false (front ++ line ++ [0]) lines := by
        intro turns
        rw [findDepLineLoop, if_neg (not_not.2 hcolon)]
        have hstray : decide ((beforeColon line).length + 1 < (name ++ [0x3a]).length) = false := by
          rw [length_append, length_singleton]
          exact decide_eq_false (by omega)
        simp only [hstray, suffix_target hlen, Targets, and_iff_right hcolon, Bool.or_false]
      have hnext : (∃ turns, findDepLineLoop (name ++ [0x3a]) turns false front (line :: lines) =
          some (result, false)) ↔ if Targets name line then result = some line else
          ∃ turns, findDepLineLoop (name ++ [0x3a]) turns false (front ++ line ++ [0]) lines =
            some (result, false) := by
        rw [← Nat.or_exists_add_one, or_iff_right nofun]
        simp only [hstep]
        split_ifs
        · simp [eq_comm]
        · rfl
      rw [hnext]
      split_ifs with htarget
      · simp [htarget]
      · simp [ih, htarget, hcolon, hlen]
    · have hother : ¬ Targets name line := fun h => hgood ⟨h.1, h.2.length_le⟩
      have hnever : ∀ turns, findDepLineLoop (name ++ [0x3a]) turns false front (line :: lines) ≠
          some (result, false) := by
        rintro (_ | turns) h
        · cases h
        by_cases hcolon : 0x3a ∈ line
        · rw [findDepLineLoop, if_neg (not_not.2 hcolon)] at h
          have hstray : decide ((beforeColon line).length + 1 < (name ++ [0x3a]).length) = true := by
            rw [length_append, length_singleton]
            exact decide_eq_true (by simp [hcolon] at hgood; omega)
          simp only [hstray] at h
          split_ifs at h
          · cases h
          · cases findDepLineLoop_strayed h
        · rw [findDepLineLoop_stuck hcolon] at h
          cases h
      simp [hnever, hother, hgood]

theorem bufLines_eq (cur buf : Bytes) :
    bufLines cur buf = ((buf.splitOn 0).modifyHead (cur ++ ·)).takeWhile (· ≠ []) := by
  induction buf generalizing cur with
  | nil => cases cur <;> simp [bufLines]
  | cons c buf ih =>
    rw [bufLines, splitOn, splitOnP_cons_eq_if_modifyHead, ← splitOn]
    have hid : (splitOn 0 buf).modifyHead (fun piece => piece) = splitOn 0 buf := by
      cases splitOn 0 buf <;> rfl
    by_cases hzero : c = 0
    · cases cur <;> simp [hzero, ih, hid]
    · simp [hzero, ih, Function.comp_def]

end

/-- The lines in front of the first empty one. -/
def searchedLines (content : Bytes) : List Bytes := (textLines content).takeWhile (· ≠ [])

/-- **The search for a line.**  It ends with the first line whose path ends with the name exactly if
every line in front of that one has a colon, with a path as long as the name at least, and no empty
line comes before.
[core/grub/kern/ipxe_grub.c:453-490] -/
theorem dep_line_search (front content name : Bytes) :
    FindsFirst front content name ↔
      (∀ line ∈ (searchedLines content).takeWhile (¬ Targets name ·),
        0x3a ∈ line ∧ name.length ≤ (beforeColon line).length) ∧
      ((∃ line ∈ textLines content, Targets name line) →
        ∃ line ∈ searchedLines content, Targets name line) := by
  have hlines : bufLines [] (textBuf content) = searchedLines content := by
    rw [bufLines_eq, searchedLines, textLines]
    cases splitOn 0 (textBuf content) <;> rfl
  rw [FindsFirst, hlines, findDepLineLoop_iff]
  refine and_congr_right fun _ => ?_
  cases hfound : (searchedLines content).find? (Targets name ·) with
  | some line =>
    have hfirst : (textLines content).find? (Targets name ·) = some line := by
      rw [← @takeWhile_append_dropWhile _ (· ≠ []) (textLines content), find?_append]
      exact congrArg (Option.or · _) hfound
    rw [hfirst, eq_self_iff_true, true_iff]
    exact fun _ => ⟨line, mem_of_find?_eq_some hfound, by simpa using find?_some hfound⟩
  | none =>
    have hnone : ¬ ∃ line ∈ searchedLines content, Targets name line := by simpa using hfound
    simp [hnone]

/-- A line that is not a dependency stops the search for ever, and that for a long name looks into
the line before. -/
theorem dep_line_search_stuck :
    (∀ turns, findDepLineLoop (ascii "/nbd.ko:") turns false []
      (bufLines [] (textBuf (ascii "# modules\nn/nbd.ko:\n"))) = none) ∧
    findDepLineLoop (ascii "/long/nbd.ko:") 3 false (ascii "/long")
      (bufLines [] (textBuf (ascii "/nbd.ko:\n"))) = some (some (ascii "/nbd.ko:"), true) := by
  refine ⟨fun turns => ?_, by decide +kernel⟩
  have hlines : bufLines [] (textBuf (ascii "# modules\nn/nbd.ko:\n")) =
      [ascii "# modules", ascii "n/nbd.ko:"] := by decide +kernel
  exact findDepLineLoop_stuck (by decide +kernel) turns false

end Ipxe.Analysis
