import Ipxe.Model.Encodings
import Mathlib.Data.BitVec

/-!
# Network driver modules

`core/grub/kern/ipxe_grub.c`: modules are looked up in `modules.alias` and `modules.dep` and
collected in a list, which is written to one buffer.  A text has two NULs behind it, and its lines
are cut there.  The comparison of names goes back from the colon of a line and may reach in front
of the buffer; `front` is the memory there.  Files do not change.  A file that cannot be opened
leaves `grub_errno` set, and until it is reset no other file can be opened.

Left out: failing allocations of list nodes and line copies, errors of reading, progress and
debugging output, `vtoy_dump_netdrv`, and how the kernel versions are found.
-/

namespace Ipxe.Model

/-- The files that there are, and their contents. -/
abbrev GrubFiles : Type := Bytes → Option Bytes

variable (files : GrubFiles)

/-- Open a file; nothing is opened while `grub_errno` is set.
[core/grub/kern/file.c:60-142] -/
def grubFileOpen (grubErrno : Bool) (name : Bytes) : Option Bytes :=
  if grubErrno then none else files name

@[simp] theorem grubFileOpen_eq_some {files : GrubFiles} {grubErrno : Bool} {name content : Bytes} :
    grubFileOpen files grubErrno name = some content ↔
      grubErrno = false ∧ files name = some content := by
  cases grubErrno <;> simp [grubFileOpen]

def cstr (buf : Bytes) : Bytes := buf.takeWhile (· ≠ 0)

/-- `snprintf` of strings to a buffer of a given size. -/
def snprintf (size : ℕ) (parts : List Bytes) : Bytes := (parts.flatMap cstr).take (size - 1)

/-! ## Texts -/

/-- See 453-463 -/
def vtoySplitLine : Bytes → Bytes
  | [] => []
  | c :: buf =>
    if c = 0 then c :: buf
    else if c = 0x0a then 0 :: vtoySplitLine buf
    else c :: vtoySplitLine buf

/-- The lines of a buffer up to the first empty one: what
`while ( ( *pcStart ) && ( ( pcEnd = strchr ( pcStart, '\0' ) ) != NULL ) )` goes through.
`cur` is the part of a line that has been read. -/
def bufLines (cur : Bytes) : Bytes → List Bytes
  | [] => if cur = [] then [] else [cur]
  | c :: buf =>
    if c ≠ 0 then bufLines (cur ++ [c]) buf
    else if cur = [] then []
    else cur :: bufLines [] buf

/-- The part of a string in front of its first colon. -/
def beforeColon (line : Bytes) : Bytes := line.takeWhile (· ≠ 0x3a)

/-- The suffix of the modules behind `.ko`.
[416-451] -/
def vtoyGetKoSuffix (pcModepBuf : Bytes) : Bytes :=
  let line := cstr pcModepBuf
  let head := beforeColon line
  if 0x3a ∉ line ∨ 0x2e ∉ head.tail then []
  else
    let suffix := snprintf 8 [0x2e :: (head.reverse.takeWhile (· ≠ 0x2e)).reverse]
    if suffix = ascii ".ko" then [] else suffix

/-- The line of `modules.dep` for a module; nothing is returned, ever, if there is a line without a
colon before it, from which the loop does not move on.
[465-490] -/
def vtoyFindDepLine (szKo : Bytes) : Bytes → List Bytes → Option (Option Bytes)
  | _, [] => some none
  | front, line :: lines =>
    if 0x3a ∉ line then none
    else if szKo <:+ front ++ beforeColon line ++ [0x3a] then some (some line)
    else vtoyFindDepLine szKo (front ++ line ++ [0]) lines

/-- The loop of `vtoy_find_dep_line` for at most so many turns: what it returns, and whether a
comparison has begun before the start of its line.
[474-487] -/
def findDepLineLoop (szKo : Bytes) : ℕ → Bool → Bytes → List Bytes → Option (Option Bytes × Bool)
  | 0, _, _, _ => none
  | _ + 1, strayed, _, [] => some (none, strayed)
  | turns + 1, strayed, front, line :: lines =>
    -- `continue` leaves `pcStart` where it is
    if 0x3a ∉ line then findDepLineLoop szKo turns strayed front (line :: lines)
    else
      let strayed := strayed || (beforeColon line).length + 1 < szKo.length
      if szKo <:+ front ++ beforeColon line ++ [0x3a] then some (some line, strayed)
      else findDepLineLoop szKo turns strayed (front ++ line ++ [0]) lines

def hexUpper (bytes : Bytes) : Bytes := (base16Encode bytes).map toupper

/-- The first line that begins like `szAlias` in `len` characters, from there on. -/
def findAlias (szAlias : Bytes) (len : ℕ) (lines : List Bytes) : Option Bytes :=
  (lines.find? fun line => line.take len = szAlias.take len).map fun line => line.drop len

/-- The module for a PCI device, and whether there is one; `szKoPath` is what the buffer held.
[492-534] -/
def vtoyMatchNetdrv (pcModaliBuf : Bytes) (pciID : Bytes) (szKoPath : Bytes) : Bool × Bytes :=
  let lines := bufLines [] pcModaliBuf
  let full := ascii "alias pci:v0000" ++ hexUpper (pciID.take 2) ++ ascii "d0000" ++
    hexUpper ((pciID.drop 2).take 2) ++ ascii "sv*sd*bc*sc*i* "
  let found := findAlias (full.take 127) full.length lines
  let szKoPath := match found with
    | some name => snprintf 256 [name]
    | none => szKoPath
  -- a module may have another name
  let full := ascii "alias " ++ szKoPath ++ ascii " "
  let szKoPath := match findAlias (full.take 127) full.length lines with
    | some name => snprintf 256 [name]
    | none => szKoPath
  (found.isSome, szKoPath)

/-! ## The list -/

/-- See include/ipxe/vtoy.h:27-32 -/
structure NetdrvNode where
  szKoPath : Bytes
  koSize : BitVec 32
  deriving DecidableEq

/-- The list with its counters, and whether `grub_errno` is set.
[46-49] -/
structure NetDrv where
  list : List NetdrvNode := []
  count : BitVec 32 := 0
  totLen : BitVec 32 := 0
  grubErrno : Bool := false

/-- Append a module, if its file can be opened; otherwise `grub_errno` stays set.
[596-618,642-662] -/
def appendNetdrv (szKoPath : Bytes) (drv : NetDrv) : NetDrv :=
  match grubFileOpen files drv.grubErrno szKoPath with
  | none => { drv with grubErrno := true }
  | some content =>
    let koSize := BitVec.ofNat 32 content.length
    { list := drv.list ++ [⟨szKoPath, koSize⟩]
      count := drv.count + 1
      totLen := drv.totLen + koSize
      grubErrno := false }

/-- See 536-549 -/
def vtoyFindNetdrv (drv : NetDrv) (szKoPath : Bytes) : Bool :=
  drv.list.any fun node => node.szKoPath = szKoPath

def koPath (szMod szKv name : Bytes) : Bytes := snprintf 256 [szMod, szKv, ascii "/", name]

/-- The loop over the dependencies, from the end of the line to its second character.  `cur` is the
string that begins behind the current position.
[581-633] -/
def pushDeps (files : GrubFiles) (szMod szKv : Bytes) : Bytes → Bytes → NetDrv → NetDrv × Bytes
  | [], cur, drv => (drv, cur)
  | c :: before, cur, drv =>
    if c = 0x20 then
      let szKoPath := koPath szMod szKv cur
      let drv := if vtoyFindNetdrv drv szKoPath then drv else appendNetdrv files szKoPath drv
      pushDeps files szMod szKv before [] drv
    else if c = 0x3a then pushDeps files szMod szKv before [] drv
    else pushDeps files szMod szKv before (c :: cur) drv

/-- Collect a module after the modules that it depends on.
[552-667] -/
def vtoyPushNetdrv (front pcModepBuf szMod szKv szSearch : Bytes) (drv : NetDrv) : Option NetDrv :=
  match vtoyFindDepLine szSearch front (bufLines [] pcModepBuf) with
  | none => none
  | some none => some drv
  -- lines are not empty
  | some (some []) => some drv
  | some (some (first :: rest)) =>
    let (drv, cur) := pushDeps files szMod szKv rest.reverse [] drv
    some (appendNetdrv files (koPath szMod szKv (first :: cur)) drv)

/-- See 679-692 -/
def vtoyFreeNetdrv (drv : NetDrv) : NetDrv := { drv with list := [], totLen := 0 }

/-- A text file as it is searched. -/
def textBuf (content : Bytes) : Bytes := vtoySplitLine (content ++ [0, 0])

/-- The modules that are looked for, for a network card.
[774-797] -/
def netdrvSearches (pcModepBuf pcModaliBuf szPath pciID : Bytes) : List Bytes :=
  let szSuffix := vtoyGetKoSuffix pcModepBuf
  let search := fun name : Bytes =>
    snprintf 256 [ascii "/", name, ascii ".ko", szSuffix, ascii ":"]
  let card :=
    if base16Encode (pciID.take 4) = ascii "1af41000" then
      [search (ascii "virtio_pci"), search (ascii "virtio_net")]
    else
      match vtoyMatchNetdrv pcModaliBuf pciID szPath with
      | (true, name) => [search name]
      | (false, _) => []
  card ++ [search (ascii "nbd")]

/-- Collect the modules for a kernel version.  If one of the two texts cannot be opened, which the
second cannot after the first, there are none and `grub_errno` is reset.
[734-809] -/
def vtoyResolveNetdrv (front szMod szKv pciID : Bytes) (drv : NetDrv) : Option NetDrv :=
  let szPath := snprintf 256 [szMod, szKv, ascii "/modules.alias"]
  match grubFileOpen files drv.grubErrno (snprintf 256 [szMod, szKv, ascii "/modules.dep"]),
    grubFileOpen files drv.grubErrno szPath with
  | some modep, some modali =>
    (netdrvSearches (textBuf modep) (textBuf modali) szPath pciID).foldlM
      (fun drv szSearch => vtoyPushNetdrv files front (textBuf modep) szMod szKv szSearch drv) drv
  | _, _ => some { drv with grubErrno := false }

/-- Collect a module package of an installer; `none` if it cannot be opened, where the size of the
file is read through a NULL pointer.
[988-1028] -/
def vtoyUdebEnum (data filename : Bytes) (dir : Bool) (drv : NetDrv) : Option NetDrv :=
  if dir then some drv
  else if ascii "nbd-modules-" <+: filename ∨ ascii "nic-modules-" <+: filename ∨
      ascii "nic-shared-modules-" <+: filename ∨ ascii "nic-usb-modules-" <+: filename then
    let szKoPath := snprintf 256 [data, ascii "/", filename]
    if grubFileOpen files drv.grubErrno szKoPath = none then none
    else some (appendNetdrv files szKoPath drv)
  else some drv

/-- The builds differ in the width of `grub_size_t`. -/
structure GrubArch where
  sizeBits : ℕ
  le_sizeBits : 32 ≤ sizeBits

/-- What `grub_file_read` reads from the start of a file.
[core/grub/kern/file.c:147-189] -/
def grubFileRead {w : ℕ} (content : Bytes) (len : BitVec w) : Bytes :=
  let len := min len.toNat content.length
  content.take (if 2 ^ (w - 1) ≤ len then len / 2 else len)

def leBytes (value : BitVec 32) : Bytes :=
  [UInt8.ofNat value.toNat, UInt8.ofNat (value.toNat / 2 ^ 8), UInt8.ofNat (value.toNat / 2 ^ 16),
    UInt8.ofNat (value.toNat / 2 ^ 24)]

/-- Bytes that are written, and how far behind the start of the buffer. -/
abbrev BufWrite : Type := ℤ × Bytes

/-- The records, each with the file behind it; `none` if a file cannot be opened, which is then read
through a NULL pointer.
[715-727] -/
def fillRecords (arch : GrubArch) (files : GrubFiles) (grubErrno : Bool) :
    ℤ → List NetdrvNode → Option (List BufWrite)
  | _, [] => some []
  | pstDrv, node :: nodes => do
    let content ← grubFileOpen files grubErrno node.szKoPath
    let writes ← fillRecords arch files grubErrno (pstDrv + (260 + node.koSize.toInt)) nodes
    some ((pstDrv, leBytes node.koSize) ::
      (pstDrv + 4, snprintf 256 [node.szKoPath] ++ [0]) ::
      (pstDrv + 260, grubFileRead content (node.koSize.signExtend arch.sizeBits)) :: writes)

/-- A filled buffer. -/
structure NetdrvBlob where
  buflen : BitVec 32
  writes : List BufWrite

/-- Fill a buffer with the modules; there is none if there are no modules or the length is negative,
nor behind a NULL pointer.
[694-732] -/
def vtoyFillNetdrvData (arch : GrubArch) (files : GrubFiles) (drv : NetDrv) : Option NetdrvBlob :=
  if drv.count = 0 then none
  else
    let buflen := drv.totLen + drv.count * (260 + 4)
    if buflen.toInt < 0 then none
    else do
      let writes ← fillRecords arch files drv.grubErrno 8 drv.list
      some
        { buflen := buflen
          writes := (0, leBytes 0x11223344) :: (4, leBytes drv.count) :: writes }

end Ipxe.Model
