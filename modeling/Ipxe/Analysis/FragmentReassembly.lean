import Ipxe.Analysis.Ipv6ReceiveLength
import Ipxe.Interface.FragmentedDatagrams

/-!
# Fragment reassembly puts datagrams together

Every reassembly buffer is built from fragments of one datagram that were received in the order of
their offsets (`BuiltFrom`).  A received fragment opens a buffer, extends one or is dropped
(`receive_cases`).
-/

namespace Ipxe.Analysis

open Library Model Interface List

variable {fragments : FragmentReassembler} {least : ℕ} {same : Bytes → Bytes → Prop}

theorem inSequence_append {offset : ℕ} {packets : List (IpFragment least)}
    (packet : IpFragment least) (h : InSequence fragments offset packets)
    (hnext : fragments.fragmentOffset packet.iobuf packet.hdrlen =
      offset + (packets.flatMap IpFragment.payload).length) :
    InSequence fragments offset (packets ++ [packet]) := by
  induction packets generalizing offset with
  | nil => exact ⟨hnext, trivial⟩
  | cons first packets ih =>
    obtain ⟨hfirst, hrest⟩ := h
    refine ⟨hfirst, ih hrest ?_⟩
    rw [hnext, flatMap_cons, length_append, add_assoc]

/-- A reassembly buffer that consists of the first fragment's header and the payload of fragments of
one datagram, none of which after the first is marked as the last. -/
structure BuiltFrom (fragments : FragmentReassembler) (same : Bytes → Bytes → Prop)
    (first : IpFragment least) (rest : List (IpFragment least)) (fragment : Fragment) : Prop where
  hdrlen_eq : fragment.hdrlen = first.hdrlen
  bytes_eq : fragment.iobuf.bytes = first.header ++ (first :: rest).flatMap IpFragment.payload
  datagram : InDatagram fragments same (first :: rest)
  more : ∀ packet ∈ rest, fragments.moreFragments packet.iobuf packet.hdrlen = true

variable (packet : IpFragment least)

theorem length_header : packet.header.length = packet.hdrlen := by
  rw [IpFragment.header, length_take, length_bytes]
  exact min_eq_left packet.hdrlen_le

theorem builtFrom_first (hsame : RecognisesBy fragments least same) (packet : IpFragment least)
    (hoffset : fragments.fragmentOffset packet.iobuf packet.hdrlen = 0) :
    BuiltFrom fragments same packet [] ⟨packet.iobuf, packet.hdrlen, packet.hdrlen_le⟩ where
  hdrlen_eq := rfl
  bytes_eq := by
    rw [flatMap_singleton]
    exact (take_append_drop _ _).symm
  datagram := by
    refine ⟨?_, hoffset, trivial⟩
    intro part hpart other hother
    rw [mem_singleton.1 hpart, mem_singleton.1 hother]
    exact hsame.equivalence.refl _
  more := fun _ h => absurd h not_mem_nil

section

variable {first packet : IpFragment least} {rest : List (IpFragment least)} {fragment : Fragment}
  (h : BuiltFrom fragments same first rest fragment)

include h

theorem BuiltFrom.header_eq : fragment.iobuf.bytes.take fragment.hdrlen = first.header := by
  rw [h.bytes_eq, h.hdrlen_eq, ← length_header, take_left]

theorem BuiltFrom.payload_length :
    fragment.iobuf.len - fragment.hdrlen = ((first :: rest).flatMap IpFragment.payload).length := by
  rw [← length_bytes, h.bytes_eq, length_append, length_header, h.hdrlen_eq]
  exact Nat.add_sub_cancel_left _ _

theorem BuiltFrom.bytes_extend :
    (fragment.extend packet.iobuf packet.hdrlen).iobuf.bytes =
      first.header ++ (first :: (rest ++ [packet])).flatMap IpFragment.payload := by
  rw [Fragment.extend, bytes_append, bytes_iobPull, h.bytes_eq, append_assoc,
    ← cons_append, flatMap_append, flatMap_singleton]
  rfl

variable (hsame : RecognisesBy fragments least same)
  (hmatch : fragments.isFragment fragment packet.iobuf packet.hdrlen = true)
  (hoffset : fragments.fragmentOffset packet.iobuf packet.hdrlen =
    fragment.iobuf.len - fragment.hdrlen)

include hsame hmatch hoffset

theorem BuiltFrom.inDatagram : InDatagram fragments same (first :: (rest ++ [packet])) := by
  have hleast : least ≤ fragment.hdrlen := by
    rw [h.hdrlen_eq]
    exact first.least_le
  have hrelated : same first.header packet.header := by
    rw [← h.header_eq]
    exact (hsame.isFragment_iff fragment packet hleast).1 hmatch
  have hall : ∀ part ∈ first :: (rest ++ [packet]), same first.header part.header := by
    intro part hpart
    rw [← cons_append, mem_append, mem_singleton] at hpart
    rcases hpart with hold | rfl
    · exact h.datagram.one first mem_cons_self part hold
    · exact hrelated
  refine ⟨?_, ?_⟩
  · intro part hpart other hother
    exact hsame.equivalence.trans (hsame.equivalence.symm (hall part hpart)) (hall other hother)
  · have hsequence := inSequence_append packet h.datagram.sequence (by
      rw [hoffset, h.payload_length, zero_add])
    rwa [cons_append] at hsequence

theorem BuiltFrom.extend
    (hmore : fragments.moreFragments packet.iobuf packet.hdrlen = true) :
    BuiltFrom fragments same first (rest ++ [packet])
      (fragment.extend packet.iobuf packet.hdrlen) where
  hdrlen_eq := h.hdrlen_eq
  bytes_eq := h.bytes_extend
  datagram := h.inDatagram hsame hmatch hoffset
  more := by
    intro part hpart
    rcases mem_append.1 hpart with hold | hnew
    · exact h.more part hold
    · rw [mem_singleton.1 hnew]
      exact hmore

end

theorem mem_replaceFirst {α : Type} {p : α → Bool} {a b : α} {items : List α}
    (h : b ∈ replaceFirst p a items) : b = a ∨ b ∈ items := by
  induction items with
  | nil => exact absurd h not_mem_nil
  | cons first items ih =>
    rw [replaceFirst] at h
    split_ifs at h
    · rcases mem_cons.1 h with rfl | h
      · exact .inl rfl
      · exact .inr (mem_cons_of_mem _ h)
    · rcases mem_cons.1 h with rfl | h
      · exact .inr mem_cons_self
      · exact (ih h).imp_right (mem_cons_of_mem _)

/-- **What a received fragment does**: nothing; or it opens a buffer; or it extends a buffer that it
matches, which stays in the list or comes out.
[net/fragment.c:88-184] -/
theorem receive_cases (fragments : FragmentReassembler) (list : List Fragment) (alloc : Bool)
    (packet : IpFragment least) :
    receive fragments list alloc packet = (none, list) ∨
    (fragments.fragmentOffset packet.iobuf packet.hdrlen = 0 ∧
      receive fragments list alloc packet =
        (none, ⟨packet.iobuf, packet.hdrlen, packet.hdrlen_le⟩ :: list)) ∨
    ∃ fragment ∈ list, fragments.isFragment fragment packet.iobuf packet.hdrlen = true ∧
      fragments.fragmentOffset packet.iobuf packet.hdrlen = fragment.iobuf.len - fragment.hdrlen ∧
      ((fragments.moreFragments packet.iobuf packet.hdrlen = true ∧
          receive fragments list alloc packet =
            (none, replaceFirst (fun f => fragments.isFragment f packet.iobuf packet.hdrlen)
              (fragment.extend packet.iobuf packet.hdrlen) list)) ∨
        (fragments.moreFragments packet.iobuf packet.hdrlen = false ∧
          receive fragments list alloc packet =
            (some ((fragment.extend packet.iobuf packet.hdrlen).iobuf, fragment.hdrlen),
              list.eraseP fun f => fragments.isFragment f packet.iobuf packet.hdrlen))) := by
  rw [receive, fragmentReassemble]
  cases hfind : list.find? fun f => fragments.isFragment f packet.iobuf packet.hdrlen with
  | none =>
    simp only
    split_ifs with hopen
    · exact .inr (.inl ⟨hopen.1, rfl⟩)
    · exact .inl rfl
  | some fragment =>
    have hmem := mem_of_find?_eq_some hfind
    have hmatch : fragments.isFragment fragment packet.iobuf packet.hdrlen = true := by
      simpa using find?_some hfind
    simp only
    split_ifs with hnext hmore
    · exact .inr (.inr ⟨fragment, hmem, hmatch, hnext.1, .inl ⟨hmore, rfl⟩⟩)
    · exact .inr (.inr
        ⟨fragment, hmem, hmatch, hnext.1, .inr ⟨Bool.eq_false_iff.2 hmore, rfl⟩⟩)
    · exact .inl rfl

theorem receive_failed (list : List Fragment) (packet : IpFragment least) :
    receive fragments list false packet = (none, list) := by
  rw [receive, fragmentReassemble]
  cases list.find? fun f => fragments.isFragment f packet.iobuf packet.hdrlen with
  | none => exact if_neg fun h => Bool.false_ne_true h.2
  | some fragment => exact if_neg fun h => Bool.false_ne_true h.2

/-- Every buffer is built from fragments among those received. -/
def AllBuilt (fragments : FragmentReassembler) (same : Bytes → Bytes → Prop)
    (received : List (IpFragment least)) (list : List Fragment) : Prop :=
  ∀ fragment ∈ list, ∃ first rest, (first :: rest).Sublist received ∧
    BuiltFrom fragments same first rest fragment

theorem AllBuilt.mono {received later : List (IpFragment least)} {list : List Fragment}
    (h : AllBuilt fragments same received list) (hsub : received.Sublist later) :
    AllBuilt fragments same later list := by
  intro fragment hmem
  obtain ⟨first, rest, hrest, hbuilt⟩ := h fragment hmem
  exact ⟨first, rest, hrest.trans hsub, hbuilt⟩

theorem AllBuilt.subset {received : List (IpFragment least)} {list list' : List Fragment}
    (h : AllBuilt fragments same received list) (hsub : list' ⊆ list) :
    AllBuilt fragments same received list' :=
  fun fragment hmem => h fragment (hsub hmem)

/-- A received fragment keeps every buffer built from received fragments. -/
theorem AllBuilt.receive (hsame : RecognisesBy fragments least same)
    {received : List (IpFragment least)} {list : List Fragment}
    (h : AllBuilt fragments same received list) (alloc : Bool) (packet : IpFragment least) :
    AllBuilt fragments same (received ++ [packet]) (receive fragments list alloc packet).2 := by
  have hold := h.mono (sublist_append_left received [packet])
  rcases receive_cases fragments list alloc packet with
    hdrop | ⟨hoffset, hopen⟩ | ⟨fragment, hmem, hmatch, hoffset, ⟨hmore, hextend⟩ | ⟨-, hdone⟩⟩
  · rw [hdrop]
    exact hold
  · rw [hopen]
    intro other hother
    rcases mem_cons.1 hother with rfl | hother
    · exact ⟨packet, [], sublist_append_right received [packet],
        builtFrom_first hsame packet hoffset⟩
    · exact hold other hother
  · rw [hextend]
    intro other hother
    rcases mem_replaceFirst hother with rfl | hother
    · obtain ⟨first, rest, hsub, hbuilt⟩ := h fragment hmem
      refine ⟨first, rest ++ [packet], ?_, hbuilt.extend hsame hmatch hoffset hmore⟩
      exact hsub.append_right [packet]
    · exact hold other hother
  · rw [hdone]
    exact hold.subset eraseP_subset

/-- **In every run all buffers are built from received fragments.** -/
theorem allBuilt_run (hsame : RecognisesBy fragments least same)
    (events : List (FragmentEvent least)) :
    AllBuilt fragments same (receivedFragments events)
      (run (fragmentStep fragments) [] events) := by
  induction events using List.reverseRecOn with
  | nil => exact fun fragment h => absurd h not_mem_nil
  | append_singleton events event ih =>
    rw [run_append, receivedFragments, filterMap_append]
    cases event with
    | received alloc packet => exact ih.receive hsame alloc packet
    | expired index =>
      simp only [filterMap_cons, filterMap_nil, append_nil]
      exact ih.subset (eraseIdx_subset)

/-- **A packet that comes out of the reassembler is a datagram**, put together from its
fragments in the order of their offsets, the last of which is marked so; and without memory nothing
changes.
[net/fragment.c:46-184] -/
theorem fragment_reassembly (hsame : RecognisesBy fragments least same)
    (events : List (FragmentEvent least)) (alloc : Bool) (packet : IpFragment least) :
    (∀ whole hdrlen, (receive fragments (run (fragmentStep fragments) [] events) alloc packet).1 =
        some (whole, hdrlen) →
      ∃ first middle, (first :: middle).Sublist (receivedFragments events) ∧
        InDatagram fragments same (first :: (middle ++ [packet])) ∧
        (∀ part ∈ middle, fragments.moreFragments part.iobuf part.hdrlen = true) ∧
        fragments.moreFragments packet.iobuf packet.hdrlen = false ∧
        hdrlen = first.hdrlen ∧
        whole.bytes = first.header ++ (first :: (middle ++ [packet])).flatMap IpFragment.payload) ∧
    receive fragments (run (fragmentStep fragments) [] events) false packet =
      (none, run (fragmentStep fragments) [] events) := by
  refine ⟨?_, receive_failed _ packet⟩
  intro whole hdrlen hwhole
  have hbuilt := allBuilt_run hsame events
  revert hwhole hbuilt
  generalize run (fragmentStep fragments) [] events = list
  intro hwhole hbuilt
  rcases receive_cases fragments list alloc packet with
    hdrop | ⟨-, hopen⟩ | ⟨fragment, hmem, hmatch, hoffset, ⟨-, hextend⟩ | ⟨hlast, hdone⟩⟩
  · rw [hdrop] at hwhole
    cases hwhole
  · rw [hopen] at hwhole
    cases hwhole
  · rw [hextend] at hwhole
    cases hwhole
  · rw [hdone] at hwhole
    obtain ⟨rfl, rfl⟩ := Prod.mk.inj (Option.some.inj hwhole)
    obtain ⟨first, middle, hsub, hfrom⟩ := hbuilt fragment hmem
    exact ⟨first, middle, hsub, hfrom.inDatagram hsame hmatch hoffset, hfrom.more, hlast,
      hfrom.hdrlen_eq, hfrom.bytes_extend⟩

theorem offset_of_inSequence {offset : ℕ} {packets behind : List (IpFragment least)}
    {packet : IpFragment least} (h : InSequence fragments offset (packets ++ packet :: behind)) :
    fragments.fragmentOffset packet.iobuf packet.hdrlen =
      offset + (packets.flatMap IpFragment.payload).length := by
  induction packets generalizing offset with
  | nil => exact h.1
  | cons first packets ih => rw [ih h.2, flatMap_cons, length_append, add_assoc]

section

variable (hsame : RecognisesBy fragments least same) {first packet : IpFragment least}
  {rest behind : List (IpFragment least)} {list : List Fragment}

include hsame

theorem BuiltFrom.next {fragment : Fragment} (h : BuiltFrom fragments same first rest fragment)
    (hparts : InDatagram fragments same (first :: (rest ++ packet :: behind))) :
    fragments.isFragment fragment packet.iobuf packet.hdrlen = true ∧
      fragments.fragmentOffset packet.iobuf packet.hdrlen =
        fragment.iobuf.len - fragment.hdrlen := by
  rw [hsame.isFragment_iff _ _ (h.hdrlen_eq ▸ first.least_le), h.header_eq, h.payload_length]
  refine ⟨hparts.one _ mem_cons_self _ (by simp), ?_⟩
  rw [← zero_add (length _)]
  exact offset_of_inSequence hparts.sequence

variable (hnew : list.find? (fragments.isFragment · first.iobuf first.hdrlen) = none)
  (hmore : ∀ part ∈ rest, fragments.moreFragments part.iobuf part.hdrlen = true)

include hnew hmore

/-- The parts that have arrived are in a buffer in front of the others. -/
theorem run_parts (hparts : InDatagram fragments same (first :: (rest ++ behind))) :
    ∃ fragment, run (fragmentStep fragments) list ((first :: rest).map (.received true)) =
      fragment :: list ∧ BuiltFrom fragments same first rest fragment := by
  induction rest using List.reverseRecOn generalizing behind with
  | nil =>
    refine ⟨_, ?_, builtFrom_first hsame first hparts.sequence.1⟩
    simp [fragmentStep, receive, fragmentReassemble, hnew, hparts.sequence.1]
  | append_singleton rest packet ih =>
    rw [append_assoc] at hparts
    obtain ⟨hmore, hnow⟩ := forall_mem_append.1 hmore
    obtain ⟨fragment, hrun, hbuilt⟩ := ih hmore hparts
    obtain ⟨hmatch, hoffset⟩ := hbuilt.next hsame hparts
    have hnow := hnow packet (mem_singleton.2 rfl)
    refine ⟨_, ?_, hbuilt.extend hsame hmatch hoffset hnow⟩
    rw [← cons_append, map_append, run_append, hrun]
    simp [fragmentStep, receive, fragmentReassemble, replaceFirst, hmatch, hoffset, hnow]

/-- **A datagram whose fragments arrive in order is delivered**, and no buffer is left behind.
[net/fragment.c:65-184] -/
theorem datagram_delivered (hparts : InDatagram fragments same (first :: (rest ++ [packet])))
    (hlast : fragments.moreFragments packet.iobuf packet.hdrlen = false) :
    ∃ whole, receive fragments (run (fragmentStep fragments) list
        ((first :: rest).map (.received true))) true packet = (some (whole, first.hdrlen), list) ∧
      whole.bytes = first.header ++ (first :: (rest ++ [packet])).flatMap IpFragment.payload := by
  obtain ⟨fragment, hrun, hbuilt⟩ := run_parts hsame hnew hmore hparts
  obtain ⟨hmatch, hoffset⟩ := hbuilt.next hsame hparts
  refine ⟨_, ?_, hbuilt.bytes_extend⟩
  rw [hrun, ← hbuilt.hdrlen_eq]
  simp [receive, fragmentReassemble, hmatch, hoffset, hlast, Fragment.extend]

end

theorem field_eq_header {start len : ℕ} (hfield : start + len ≤ packet.hdrlen) :
    packet.iobuf.field start len = (packet.header.drop start).take len := by
  apply ext_getElem
  · simp [IoBuffer.field, length_header]
    omega
  · intro i h₁ h₂
    simp [IoBuffer.field, IpFragment.header, IoBuffer.bytes]

/-- The source address and the identification of an IPv6 fragment with such a header. -/
def ipv6DatagramKey (header : Bytes) : Bytes × Bytes :=
  ((header.drop 8).take 16, (header.drop (header.length - 4)).take 4)

/-- **IPv6 recognises fragments by an equivalence relation between their headers.**
[net/ipv6.c:435-449] -/
theorem recognisesBy_ipv6 :
    RecognisesBy ipv6Reassembler 48 fun a b => ipv6DatagramKey a = ipv6DatagramKey b where
  equivalence := ⟨fun _ => rfl, fun h => h.symm, fun h h' => h.trans h'⟩
  isFragment_iff := by
    intro fragment packet hleast
    -- a buffer is read in the same way as a packet
    let whole : IpFragment 48 := ⟨fragment.iobuf, fragment.hdrlen, hleast, fragment.hdrlen_le⟩
    have hsrc : ∀ other : IpFragment 48, ipv6Src other.iobuf = (other.header.drop 8).take 16 :=
      fun other => field_eq_header other (by have := other.least_le; omega)
    have hident : ∀ other : IpFragment 48, other.iobuf.field (other.hdrlen - 4) 4 =
        (other.header.drop (other.header.length - 4)).take 4 := by
      intro other
      rw [length_header]
      exact field_eq_header other (by have := other.least_le; omega)
    show decide (ipv6Src packet.iobuf = ipv6Src whole.iobuf ∧
      packet.iobuf.field (packet.hdrlen - 4) 4 = whole.iobuf.field (whole.hdrlen - 4) 4) = true ↔
      ipv6DatagramKey whole.header = ipv6DatagramKey packet.header
    rw [decide_eq_true_iff, hsrc, hsrc, hident, hident, ipv6DatagramKey, ipv6DatagramKey,
      Prod.mk.injEq]
    exact and_congr eq_comm eq_comm

/-- A fragment with a fixed header except for the fields that say where it belongs, and eight bytes
of payload. -/
def sampleFragment (offsetMore byte : UInt8) : IpFragment 48 where
  iobuf := IoBuffer.ofFrame ⟨List.replicate 43 0 ++ [offsetMore, 0, 0, 0, 7] ++ List.replicate 8 byte,
    by simp [sizeRange]⟩ fun _ => 0
  hdrlen := 48
  least_le := le_rfl
  hdrlen_le := by simp [IoBuffer.ofFrame]

/-- Two fragments, the first of them repeated. -/
theorem fragment_reassembly_pair : let events : List (FragmentEvent 48) :=
      [.received true (sampleFragment 0x01 0xaa), .received true (sampleFragment 0x01 0xaa)]
    ∃ whole hdrlen,
      (receive ipv6Reassembler (run (fragmentStep ipv6Reassembler) [] events) true
        (sampleFragment 0x08 0xbb)).1 = some (whole, hdrlen) ∧
      ∃ first middle, (first :: middle).Sublist (receivedFragments events) ∧
        whole.bytes = first.header ++
          (first :: (middle ++ [sampleFragment 0x08 0xbb])).flatMap IpFragment.payload := by
  intro events
  have hwhole : ∃ whole hdrlen,
      (receive ipv6Reassembler (run (fragmentStep ipv6Reassembler) [] events) true
        (sampleFragment 0x08 0xbb)).1 = some (whole, hdrlen) := ⟨_, _, rfl⟩
  obtain ⟨whole, hdrlen, hwhole⟩ := hwhole
  obtain ⟨first, middle, hsub, -, -, -, -, hbytes⟩ :=
    (fragment_reassembly recognisesBy_ipv6 events true (sampleFragment 0x08 0xbb)).1 whole hdrlen
      hwhole
  exact ⟨whole, hdrlen, hwhole, first, middle, hsub, hbytes⟩

theorem datagram_delivered_pair :
    let first := sampleFragment 0x01 0xaa
    let last := sampleFragment 0x08 0xbb
    ∃ whole, receive ipv6Reassembler (run (fragmentStep ipv6Reassembler) []
        [.received true first]) true last = (some (whole, 48), []) ∧
      whole.bytes = first.header ++ [first, last].flatMap IpFragment.payload :=
  @datagram_delivered _ _ _ recognisesBy_ipv6 (sampleFragment 1 0xaa) _ [] [] rfl (by simp)
    ⟨by decide +kernel, by decide +kernel, by decide +kernel, trivial⟩ (by decide +kernel)

end Ipxe.Analysis
