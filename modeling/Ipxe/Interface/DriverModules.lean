import Ipxe.Library.Runs
import Ipxe.Library.Schedules
import Ipxe.Library.Writes
import Ipxe.Model.NetDrv

/-!
# Driver modules

A `modules.dep` as `depmod` writes it has a line `module: dependency dependency ...` for each
module.  Modules are to be collected so that none comes twice and each comes after those that its
line names.  Who boots with them reads them from a buffer: the header, and for each module a record
of a fixed size with the length and the path, and the contents behind it.
-/

namespace Ipxe.Interface

open Library Model

structure ModuleName where
  chars : Bytes
  nonempty : chars ≠ []
  plain : ∀ c ∈ chars, c ≠ 0 ∧ c ≠ 0x0a ∧ c ≠ 0x20 ∧ c ≠ 0x3a

structure DepEntry where
  name : ModuleName
  deps : List ModuleName

/-- The names of dependencies behind the colon, with a space before each. -/
def depsText (deps : List ModuleName) : Bytes := deps.flatMap fun dep => 0x20 :: dep.chars

def DepEntry.line (entry : DepEntry) : Bytes := entry.name.chars ++ 0x3a :: depsText entry.deps

def modulesDep (entries : List DepEntry) : Bytes := entries.flatMap fun entry => entry.line ++ [0x0a]

/-- Where the modules of a kernel version are, and what is in front of the buffer with the text. -/
structure KernelModules where
  files : GrubFiles
  front : Bytes
  szMod : Bytes
  szKv : Bytes
  entries : List DepEntry

namespace KernelModules

variable (kernel : KernelModules)

def path (name : ModuleName) : Bytes := koPath kernel.szMod kernel.szKv name.chars

/-- The module at a path depends on the one at another. -/
def DependsOn (path need : Bytes) : Prop :=
  ∃ entry ∈ kernel.entries, kernel.path entry.name = path ∧ ∃ dep ∈ entry.deps, kernel.path dep = need

/-- Collecting the module that is looked for. -/
def pushStep (drv : NetDrv) (szSearch : Bytes) : NetDrv :=
  (vtoyPushNetdrv kernel.files kernel.front (textBuf (modulesDep kernel.entries)) kernel.szMod
    kernel.szKv szSearch drv).getD drv

/-- The line of an entry is the one that is found. -/
def Finds (szSearch : Bytes) (entry : DepEntry) : Prop :=
  vtoyFindDepLine szSearch kernel.front (bufLines [] (textBuf (modulesDep kernel.entries))) =
    some (some entry.line)

/-- The module that is looked for has not been collected yet. -/
def Fresh (drv : NetDrv) (szSearch : Bytes) : Prop :=
  ∀ entry ∈ kernel.entries, kernel.Finds szSearch entry →
    kernel.path entry.name ∉ drv.list.map NetdrvNode.szKoPath

instance (szSearch : Bytes) (entry : DepEntry) : Decidable (kernel.Finds szSearch entry) :=
  inferInstanceAs (Decidable (_ = _))

instance (drv : NetDrv) (szSearch : Bytes) : Decidable (kernel.Fresh drv szSearch) :=
  inferInstanceAs (Decidable (∀ entry ∈ kernel.entries, _ → _))

/-- In each line a dependency stands before the modules that it depends on itself. -/
def OrderedBy (dep : Bytes → Bytes → Prop) : Prop :=
  ∀ entry ∈ kernel.entries, Supplied dep [] ((entry.deps.reverse ++ [entry.name]).map kernel.path)

/-- The text is as `depmod` writes it. -/
def WellOrdered : Prop := kernel.OrderedBy kernel.DependsOn

/-- A file of the kernel version. -/
def file (name : String) : Bytes := snprintf 256 [kernel.szMod, kernel.szKv, ascii name]

/-- What `vtoy_resolve_netdrv` looks for. -/
def searches (pciID : Bytes) (drv : NetDrv) : List Bytes :=
  match grubFileOpen kernel.files drv.grubErrno (kernel.file "/modules.dep"),
    grubFileOpen kernel.files drv.grubErrno (kernel.file "/modules.alias") with
  | some modep, some modali =>
    netdrvSearches (textBuf modep) (textBuf modali) (kernel.file "/modules.alias") pciID
  | _, _ => []

/-- None of it has been collected yet when it is looked for. -/
def AllFresh (pciID : Bytes) (drv : NetDrv) : Prop :=
  Meets kernel.pushStep kernel.Fresh drv (kernel.searches pciID drv)

instance (pciID : Bytes) (drv : NetDrv) : Decidable (kernel.AllFresh pciID drv) :=
  inferInstanceAs (Decidable (Meets ..))

end KernelModules

/-- What depends on what, in any of several kernel versions. -/
def DependsIn (kernels : List KernelModules) (path need : Bytes) : Prop :=
  ∃ kernel ∈ kernels, kernel.DependsOn path need

/-- Collecting the modules for a network card from a kernel version. -/
def resolveStep (pciID : Bytes) (drv : NetDrv) (kernel : KernelModules) : NetDrv :=
  (vtoyResolveNetdrv kernel.files kernel.front kernel.szMod kernel.szKv pciID drv).getD drv

/-- What happens between the calls that fill a buffer: modules are collected and freed, and other code
sets or resets `grub_errno`. -/
inductive NetdrvOp where
  | push (front pcModepBuf szMod szKv szSearch : Bytes)
  | udeb (data filename : Bytes) (dir : Bool)
  | free
  | errno (set : Bool)

variable (files : GrubFiles)

/-- A call that does not return, or reads through a NULL pointer, leaves things as they are. -/
def netdrvStep (drv : NetDrv) : NetdrvOp → NetDrv
  | .push front pcModepBuf szMod szKv szSearch =>
    (vtoyPushNetdrv files front pcModepBuf szMod szKv szSearch drv).getD drv
  | .udeb data filename dir => (vtoyUdebEnum files data filename dir drv).getD drv
  | .free => vtoyFreeNetdrv drv
  | .errno set => { drv with grubErrno := set }

def readLe (mem : ℤ → UInt8) (pos : ℤ) : ℕ :=
  (mem pos).toNat + 2 ^ 8 * (mem (pos + 1)).toNat + 2 ^ 16 * (mem (pos + 2)).toNat +
    2 ^ 24 * (mem (pos + 3)).toNat

/-- The next modules of a buffer of length `len`, from `pos` on. -/
def decodeRecords (mem : ℤ → UInt8) (len : ℤ) : ℕ → ℤ → Option (List (Bytes × Bytes))
  | 0, _ => some []
  | count + 1, pos =>
    let fileLen := readLe mem pos
    if len < pos + 260 + fileLen then none
    else
      (decodeRecords mem len count (pos + 260 + fileLen)).map fun modules =>
        (cstr (readBytes mem (pos + 4) 256), readBytes mem (pos + 260) fileLen) :: modules

def decodeBlob (mem : ℤ → UInt8) (len : ℤ) : Option (List (Bytes × Bytes)) :=
  if len < 8 ∨ readLe mem 0 ≠ 0x11223344 then none else decodeRecords mem len (readLe mem 4) 8

variable (nodes : List NetdrvNode)

def moduleFiles : List (Bytes × Bytes) :=
  nodes.map fun node => (node.szKoPath, (files node.szKoPath).getD [])

/-- A buffer is filled, nothing is written outside of it, whatever was in it before the header
counts the modules of the list, and these are what is read from it. -/
def Delivers (arch : GrubArch) (files : GrubFiles) (drv : NetDrv) : Prop :=
  ∃ blob, vtoyFillNetdrvData arch files drv = some blob ∧
    (∀ write ∈ blob.writes, 0 ≤ write.1 ∧ write.1 + write.2.length ≤ blob.buflen.toInt) ∧
    ∀ mem, readLe (applyWrites mem blob.writes) 4 = drv.list.length ∧
      decodeBlob (applyWrites mem blob.writes) blob.buflen.toInt = some (moduleFiles files drv.list)

/-- Bytes that the modules need, with `sizeof ( netdrv_data_node ) + sizeof ( uint32_t )` for each. -/
def blobSize : ℕ :=
  ((moduleFiles files nodes).map fun file => file.2.length + 264).sum

/-- The counter counts the list, there are at least two modules, their buffer is smaller than 2 GiB
and `grub_errno` is not set. -/
structure BlobFits (files : GrubFiles) (drv : NetDrv) : Prop where
  counted : drv.count.toNat = drv.list.length
  several : 2 ≤ drv.list.length
  small : blobSize files drv.list < 2 ^ 31
  clear : drv.grubErrno = false

end Ipxe.Interface
