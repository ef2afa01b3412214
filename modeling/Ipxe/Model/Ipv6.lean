import Ipxe.Model.Platform
import Ipxe.Model.Fragment
import Ipxe.Model.Tcpip

/-!
# The IPv6 receive path

`net/ipv6.c`.  `ipv6_rx` from the frame handed up by the link layer to the payload handed to the
transport layer. The environment of a call holds what the function reads besides the frame: the
routing table, the device, the link-layer flags, the memory behind the frame and the outcomes of the
allocations.
-/

namespace Ipxe.Model

/-- Extension header types that `ipv6_rx` knows.
[include/ipxe/ipv6.h:133-145] -/
inductive Ipv6HeaderType where
  | hopbyhop
  | routing
  | fragment
  | destination
  deriving DecidableEq, Repr

/-- The extension header announced by a next-header value, if it is one.
[include/ipxe/ipv6.h:133-145] -/
def ipv6HeaderType (nextHeader : UInt8) : Option Ipv6HeaderType :=
  if nextHeader = 0 then some .hopbyhop
  else if nextHeader = 43 then some .routing
  else if nextHeader = 44 then some .fragment
  else if nextHeader = 60 then some .destination
  else none

def ipv6HeaderLen : ℕ := 40

variable (iobuf : IoBuffer)

/-- The bytes `[start, start + len)` of a buffer. -/
def IoBuffer.field (start len : ℕ) : Bytes :=
  (List.range len).map fun i => iobuf.mem (start + i)

def IoBuffer.ntohs (start : ℕ) : ℕ :=
  (iobuf.mem start).toNat * 256 + (iobuf.mem (start + 1)).toNat

def ipv6Src : Bytes := iobuf.field 8 16

def ipv6Dest : Bytes := iobuf.field 24 16

/-- `IPV6_CAN_IGNORE_OPT`
[include/ipxe/ipv6.h:77] -/
def ipv6CanIgnoreOpt (type : UInt8) : Bool := type &&& 0xc0 = 0

/-- The loop of `ipv6_check_options`: the options between the offsets `option` and
`last` of the buffer.
[410-423] -/
def ipv6CheckOptionsLoop (iobuf : IoBuffer) (last option : ℕ) : Except Errno Unit :=
  if option < last then
    if ipv6CanIgnoreOpt (iobuf.mem option) then
      if iobuf.mem option = 0 then ipv6CheckOptionsLoop iobuf last (option + 1)
      else ipv6CheckOptionsLoop iobuf last (option + 2 + (iobuf.mem (option + 1)).toNat)
    else .error .enotsupOpt
  else .ok ()
termination_by last - option

/-- Check that received options can be safely ignored: the options of the
extension header of length `len` at offset `options`.
[404-425] -/
def ipv6CheckOptions (options len : ℕ) : Except Errno Unit :=
  ipv6CheckOptionsLoop iobuf (options + len) (options + 2)

/-- See 435-449 -/
def ipv6IsFragment (fragment : Fragment) (iobuf : IoBuffer) (hdrlen : ℕ) : Bool :=
  ipv6Src iobuf = ipv6Src fragment.iobuf ∧
    iobuf.field (hdrlen - 4) 4 = fragment.iobuf.field (fragment.hdrlen - 4) 4

variable (hdrlen : ℕ)

/-- See 458-463 -/
def ipv6FragmentOffset : ℕ := iobuf.ntohs (hdrlen - 6) / 8 * 8

/-- See 472-477 -/
def ipv6MoreFragments : Bool := iobuf.ntohs (hdrlen - 6) % 2 = 1

/-- Fragment reassembler.
[480-486] -/
def ipv6Reassembler : FragmentReassembler where
  isFragment := ipv6IsFragment
  fragmentOffset := ipv6FragmentOffset
  moreFragments := ipv6MoreFragments

/-- Calculate IPv6 pseudo-header checksum.
[496-509] -/
def ipv6PshdrChksum (len : ℕ) (nextHeader : UInt8) (csum : UInt16) : UInt16 :=
  let len32 := BitVec.ofNat 32 len
  tcpipContinueChksum csum
    (ipv6Src iobuf ++ ipv6Dest iobuf ++
      [UInt8.ofBitVec (len32.extractLsb' 24 8), UInt8.ofBitVec (len32.extractLsb' 16 8),
        UInt8.ofBitVec (len32.extractLsb' 8 8), UInt8.ofBitVec (len32.extractLsb' 0 8)] ++
      [0, 0, 0, nextHeader])

/-- A routing table entry, as far as reception reads it.
[include/ipxe/ipv6.h:180-207] -/
structure Ipv6Miniroute where
  netdev : ℕ
  hasAddress : Bool
  address : Bytes
  deriving DecidableEq, Repr

/-- What one call of `ipv6_rx` reads besides the frame. -/
structure Ipv6RxEnv where
  /-- the routing table -/
  miniroutes : List Ipv6Miniroute
  /-- the receiving network device -/
  netdev : ℕ
  /-- `netdev->scope_id` -/
  scopeId : ℕ
  /-- the `LL_MULTICAST` flag -/
  multicast : Bool
  /-- the memory behind the received frame -/
  after : ℕ → UInt8
  /-- whether the reassembler's allocation succeeds, by the number of reassembly
  buffers in existence (a different one at each allocation of the same call) -/
  alloc : ℕ → Bool

variable (env : Ipv6RxEnv)

/-- Check if network device has a specific IPv6 address.
[141-154] -/
def ipv6HasAddr (addr : Bytes) : Bool :=
  env.miniroutes.any fun miniroute =>
    miniroute.netdev = env.netdev ∧ miniroute.hasAddress ∧ miniroute.address = addr

structure Ipv6Delivery where
  payload : Bytes
  nextHeader : UInt8
  src : Bytes
  dest : Bytes
  scopeId : ℕ
  pshdrCsum : UInt16
  deriving DecidableEq, Repr

/-- How one call of `ipv6_rx` ends. -/
inductive Ipv6Outcome where
  /-- the packet is freed and an error returned -/
  | rejected (rc : Errno)
  /-- the fragment reassembler keeps (or drops) the packet -/
  | absorbed
  /-- the payload goes to the transport layer -/
  | delivered (delivery : Ipv6Delivery)
  deriving DecidableEq, Repr

/-- Construct socket addresses, calculate the pseudo-header checksum and hand off
to the transport layer.
[784-803] -/
def ipv6Deliver (iobuf : IoBuffer) (hdrlen : ℕ) (nextHeader : UInt8) :
    Ipv6Delivery where
  payload := (iobuf.iobPull hdrlen).bytes
  nextHeader := nextHeader
  src := ipv6Src iobuf
  dest := ipv6Dest iobuf
  scopeId := env.scopeId
  pshdrCsum := ipv6PshdrChksum iobuf (iobuf.iobPull hdrlen).len nextHeader tcpipEmptyCsum

/-- The size that `ipv6_rx` takes an extension header to have.
[727-752] -/
def ipv6ExtLen : Ipv6HeaderType → ℕ
  | .fragment => 8
  | _ => 8 + (iobuf.mem (hdrlen + 1)).toNat

/-- How one turn of the extension header loop ends: with the end of the call, or
at the next header. -/
inductive Ipv6Turn where
  | stop (outcome : Ipv6Outcome) (fragments : List Fragment)
  | next (fragments : List Fragment) (iobuf : IoBuffer) (hdrlen : ℕ) (nextHeader : UInt8)

variable (fragments : List Fragment)

/-- Reassemble fragments.
[773-780] -/
def ipv6RxFragment (iobuf : IoBuffer) (hdrlen : ℕ)
    (nextHeader : UInt8) (h : hdrlen ≤ iobuf.len) : Ipv6Turn :=
  match fragmentReassemble ipv6Reassembler fragments (env.alloc fragments.length) iobuf hdrlen h with
  | (none, fragments') => .stop .absorbed fragments'
  | (some (iobuf', hdrlen'), fragments') => .next fragments' iobuf' hdrlen' nextHeader

/-- One turn of the extension header loop.
[722-781] -/
def ipv6RxTurn (iobuf : IoBuffer) (hdrlen : ℕ) (nextHeader : UInt8) : Ipv6Turn :=
  -- this first check is made whether or not an extension header follows
  if iobuf.len < hdrlen + 8 then .stop (.rejected .einvalLen) fragments
  else
    match ipv6HeaderType nextHeader with
    | none => .stop (.delivered (ipv6Deliver env iobuf hdrlen nextHeader)) fragments
    | some type =>
      let extlen := ipv6ExtLen iobuf hdrlen type
      if hlen : iobuf.len < hdrlen + extlen then .stop (.rejected .einvalLen) fragments
      else if type = .fragment then
        ipv6RxFragment env fragments iobuf (hdrlen + extlen) (iobuf.mem hdrlen)
          (Nat.le_of_not_lt hlen)
      else
        match (if type = .routing then .ok () else ipv6CheckOptions iobuf hdrlen extlen) with
        | .error rc => .stop (.rejected rc) fragments
        | .ok () => .next fragments iobuf (hdrlen + extlen) (iobuf.mem hdrlen)

/-- **What a turn that goes on has done**: it has skipped an extension
header of at least eight bytes inside the buffer, or used up a reassembly buffer. -/
theorem ipv6RxTurn_next {env : Ipv6RxEnv} {fragments fragments' : List Fragment}
    {iobuf iobuf' : IoBuffer} {hdrlen hdrlen' : ℕ} {nextHeader nextHeader' : UInt8}
    (h : ipv6RxTurn env fragments iobuf hdrlen nextHeader =
      .next fragments' iobuf' hdrlen' nextHeader') :
    nextHeader' = iobuf.mem hdrlen ∧
    ((fragments' = fragments ∧ iobuf' = iobuf ∧ hdrlen + 8 ≤ hdrlen' ∧ hdrlen' ≤ iobuf.len) ∨
      (fragments' ⊆ fragments ∧ fragments'.length < fragments.length ∧
        ∃ fragment ∈ fragments, iobuf' = fragment.iobuf.append (iobuf.iobPull (hdrlen + 8)))) := by
  unfold ipv6RxTurn at h
  split at h
  · cases h
  cases hnh : ipv6HeaderType nextHeader with
  | none => simp [hnh] at h
  | some type =>
    simp only [hnh] at h
    split at h
    · cases h
    rename_i hlen
    split at h
    · rename_i htype
      subst htype
      unfold ipv6RxFragment at h
      split at h
      · cases h
      rename_i hr
      obtain ⟨rfl, rfl, rfl, rfl⟩ := h
      obtain ⟨fragment, hmem, rfl, -, rfl, hlt⟩ := fragmentReassemble_some hr
      exact ⟨rfl, .inr ⟨List.eraseP_subset, hlt, fragment, hmem, rfl⟩⟩
    · split at h
      · cases h
      obtain ⟨rfl, rfl, rfl, rfl⟩ := h
      refine ⟨rfl, .inl ⟨rfl, rfl, ?_, by omega⟩⟩
      have hle : 8 ≤ ipv6ExtLen iobuf hdrlen type := by cases type <;> simp [ipv6ExtLen]
      omega

/-- Process any extension headers.
[721-781] -/
def ipv6RxLoop (env : Ipv6RxEnv) (fragments : List Fragment) (iobuf : IoBuffer) (hdrlen : ℕ)
    (nextHeader : UInt8) : Ipv6Outcome × List Fragment :=
  match _h : ipv6RxTurn env fragments iobuf hdrlen nextHeader with
  | .stop outcome fragments' => (outcome, fragments')
  | .next fragments' iobuf' hdrlen' nextHeader' =>
    ipv6RxLoop env fragments' iobuf' hdrlen' nextHeader'
termination_by (fragments.length, iobuf.len - hdrlen)
decreasing_by
  rcases (ipv6RxTurn_next _h).2 with ⟨rfl, rfl, hlt, hle⟩ | ⟨-, hlt, -⟩
  · exact Prod.Lex.right _ (by omega)
  · exact Prod.Lex.left _ _ hlt

/-- Truncate packet to specified length.  The two subtractions are unsigned.
[696] -/
def ipv6Truncate : IoBuffer :=
  iobuf.iobUnput (sizeSub (sizeSub iobuf.len (iobuf.ntohs 4)) ipv6HeaderLen)

@[simp] theorem mem_ipv6Truncate : (ipv6Truncate iobuf).mem = iobuf.mem := by
  unfold ipv6Truncate IoBuffer.iobUnput
  rfl

@[simp] theorem ipv6Dest_ipv6Truncate : ipv6Dest (ipv6Truncate iobuf) = ipv6Dest iobuf := by
  unfold ipv6Dest IoBuffer.field
  rw [mem_ipv6Truncate]

/-- Process incoming IPv6 packets: the outcome, and the reassembly buffers after it.
[649-815] -/
def ipv6Rx (frame : LlFrame) : Ipv6Outcome × List Fragment :=
  let iobuf := IoBuffer.ofFrame frame env.after
  if iobuf.len < ipv6HeaderLen then (.rejected .einvalLen, fragments)
  else if (iobuf.mem 0).toNat / 16 ≠ 6 then (.rejected .enotsupVer, fragments)
  else if iobuf.ntohs 4 > iobuf.len then (.rejected .einvalLen, fragments)
  else
    let iobuf := ipv6Truncate iobuf
    if ¬ env.multicast ∧ ¬ ipv6HasAddr env (ipv6Dest iobuf) then (.rejected .epipe, fragments)
    else ipv6RxLoop env fragments iobuf ipv6HeaderLen (iobuf.mem 6)

/-- **A frame that passes the sanity checks** goes on to the walk over its
extension headers. -/
theorem ipv6Rx_accepted {env : Ipv6RxEnv} {fragments : List Fragment} {frame : LlFrame}
    (hlen : 40 ≤ frame.bytes.length)
    (hver : ((IoBuffer.ofFrame frame env.after).mem 0).toNat / 16 = 6)
    (hstated : (IoBuffer.ofFrame frame env.after).ntohs 4 ≤ frame.bytes.length)
    (haddr : env.multicast ∨ ipv6HasAddr env (ipv6Dest (IoBuffer.ofFrame frame env.after))) :
    ipv6Rx env fragments frame =
      ipv6RxLoop env fragments (ipv6Truncate (IoBuffer.ofFrame frame env.after)) 40
        ((IoBuffer.ofFrame frame env.after).mem 6) := by
  have hbuf : (IoBuffer.ofFrame frame env.after).len = frame.bytes.length := rfl
  simp only [ipv6Rx, hbuf, hver, mem_ipv6Truncate, ipv6Dest_ipv6Truncate, ipv6HeaderLen]
  rw [if_neg (by omega), if_neg (by simp), if_neg (by omega), if_neg]
  · rintro ⟨hmulti, hlocal⟩
    exact haddr.elim hmulti hlocal

section

variable {env : Ipv6RxEnv} {fragments : List Fragment} {iobuf : IoBuffer} {hdrlen : ℕ}
  {nextHeader : UInt8} {fragments' : List Fragment}

theorem ipv6RxLoop_stop {outcome : Ipv6Outcome}
    (h : ipv6RxTurn env fragments iobuf hdrlen nextHeader = .stop outcome fragments') :
    ipv6RxLoop env fragments iobuf hdrlen nextHeader = (outcome, fragments') := by
  rw [ipv6RxLoop]
  split <;> simp_all

theorem ipv6RxLoop_next {iobuf' : IoBuffer} {hdrlen' : ℕ}
    {nextHeader' : UInt8} (h : ipv6RxTurn env fragments iobuf hdrlen nextHeader =
      .next fragments' iobuf' hdrlen' nextHeader') :
    ipv6RxLoop env fragments iobuf hdrlen nextHeader =
      ipv6RxLoop env fragments' iobuf' hdrlen' nextHeader' := by
  rw [ipv6RxLoop]
  split <;> simp_all

/-- With fewer than eight bytes left the packet is rejected, whatever
they are. -/
theorem ipv6RxLoop_short (h : iobuf.len < hdrlen + 8) :
    ipv6RxLoop env fragments iobuf hdrlen nextHeader = (.rejected .einvalLen, fragments) :=
  ipv6RxLoop_stop (by rw [ipv6RxTurn, if_pos h])

/-- **The walk ends** at the first next-header value that is not an
extension header's. -/
theorem ipv6RxLoop_upper (h : hdrlen + 8 ≤ iobuf.len) (hnh : ipv6HeaderType nextHeader = none) :
    ipv6RxLoop env fragments iobuf hdrlen nextHeader =
      (.delivered (ipv6Deliver env iobuf hdrlen nextHeader), fragments) := by
  apply ipv6RxLoop_stop
  rw [ipv6RxTurn, if_neg (by omega)]
  simp only [hnh]

/-- **One extension header with a length field** is skipped, unless it
does not fit or one of its options may not be ignored. -/
theorem ipv6RxTurn_extension {type : Ipv6HeaderType} (h : hdrlen + 8 ≤ iobuf.len)
    (hnh : ipv6HeaderType nextHeader = some type) (htype : type ≠ .fragment) :
    ipv6RxTurn env fragments iobuf hdrlen nextHeader =
      if iobuf.len < hdrlen + ipv6ExtLen iobuf hdrlen type then
        .stop (.rejected .einvalLen) fragments
      else
        match (if type = .routing then .ok ()
          else ipv6CheckOptions iobuf hdrlen (ipv6ExtLen iobuf hdrlen type)) with
        | .error rc => .stop (.rejected rc) fragments
        | .ok () =>
          .next fragments iobuf (hdrlen + ipv6ExtLen iobuf hdrlen type) (iobuf.mem hdrlen) := by
  rw [ipv6RxTurn, if_neg (by omega)]
  simp [hnh, htype]

end

end Ipxe.Model
