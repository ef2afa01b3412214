import Ipxe.Interface.Ipv6Packet
import Ipxe.Analysis.Ipv6ReceiveLength

/-!
# Walking over the extension headers

The walk adds the length field itself to the minimum header size, where RFC 2460 counts it in units
of eight bytes.  Eight bytes are demanded of the upper-layer payload, too.
-/

namespace Ipxe.Analysis

open Model Interface List

variable {protocol : UInt8} {frame : LlFrame} {packet : Ipv6Packet}

/-- A frame carries a packet, possibly followed by link-layer padding. -/
def Carries (frame : LlFrame) (packet : Ipv6Packet) : Prop := packet.encode <+: frame.bytes

/-- The receiving device takes packets for the packet's destination. -/
def Accepts (env : Ipv6RxEnv) (packet : Ipv6Packet) : Prop :=
  env.multicast ∨ ipv6HasAddr env packet.dest

/-- The packet's payload, and nothing else, is handed to the transport layer under
the packet's protocol. -/
def DeliversExactly (packet : Ipv6Packet) (outcome : Ipv6Outcome) : Prop :=
  ∃ delivery, outcome = .delivered delivery ∧ delivery.payload = packet.payload ∧
    delivery.nextHeader = packet.protocol ∧ delivery.src = packet.src ∧
    delivery.dest = packet.dest

/-- Every packet with extension headers of the given types and length fields, in
front of a payload of the given protocol and length, is delivered exactly. -/
def ShapeDelivered (shape : List (ExtensionType × UInt8)) (protocol : UInt8) (len : ℕ) : Prop :=
  ∀ packet : Ipv6Packet, packet.shape = shape → packet.protocol = protocol →
    packet.payload.length = len →
    ∀ (frame : LlFrame) (env : Ipv6RxEnv) (fragments : List Fragment),
      Carries frame packet → Accepts env packet →
      DeliversExactly packet (ipv6Rx env fragments frame).1

variable {iobuf : IoBuffer}

/-- The byte behind a known front part of the buffer. -/
theorem mem_of_bytes (front : Bytes) (byte : UInt8) (rest : Bytes)
    (h : iobuf.bytes = front ++ byte :: rest) : iobuf.mem front.length = byte := by
  have hlt : front.length < iobuf.bytes.length := by simp [h]
  have hget : iobuf.bytes[front.length] = byte := by simp [h]
  rw [← hget]
  simp [IoBuffer.bytes]

/-- The field behind a known front part of the buffer. -/
theorem field_of_bytes (front field rest : Bytes) (h : iobuf.bytes = front ++ (field ++ rest)) :
    iobuf.field front.length field.length = field := by
  refine ext_getElem (by simp [IoBuffer.field]) fun i h₁ h₂ => ?_
  have hsplit : iobuf.bytes = (front ++ field.take i) ++ field[i] :: (field.drop (i + 1) ++ rest) := by
    rw [h, ← cons_append, getElem_cons_drop, append_assoc,
      ← append_assoc (field.take i), take_append_drop]
  have hmem := mem_of_bytes _ _ _ hsplit
  rw [length_append, length_take, min_eq_left (le_of_lt h₂)] at hmem
  simp [IoBuffer.field, hmem]

theorem ipv6HeaderType_number (type : ExtensionType) :
    ∃ kind, ipv6HeaderType type.number = some kind ∧ kind ≠ .fragment ∧
      (kind = .routing ↔ type = .routing) := by
  cases type
  · exact ⟨.hopbyhop, by decide⟩
  · exact ⟨.routing, by decide⟩
  · exact ⟨.destination, by decide⟩

theorem ipv6HeaderType_upper (h : upperProtocol protocol) : ipv6HeaderType protocol = none := by
  obtain ⟨h₀, h₄₃, h₄₄, h₆₀⟩ := h
  simp [ipv6HeaderType, h₀, h₄₃, h₄₄, h₆₀]

/-- **The option check accepts ignorable options** when it is given exactly
the bytes they fill.  By induction on the options, the part in front growing. -/
theorem ipv6CheckOptionsLoop_ignorable {options : Bytes} (h : IgnorableOptions options)
    (front rest : Bytes)
    (hbytes : iobuf.bytes = front ++ (options ++ rest)) :
    ipv6CheckOptionsLoop iobuf (front.length + options.length) front.length = .ok () := by
  induction h generalizing front with
  | nil =>
    rw [ipv6CheckOptionsLoop, if_neg (by simp)]
  | @pad1 tail h ih =>
    have hmem := mem_of_bytes front 0 (tail ++ rest) hbytes
    have ih := ih (front ++ [0]) (by simpa using hbytes)
    rw [ipv6CheckOptionsLoop, if_pos (by simp), hmem, if_pos (by decide)]
    simpa [add_assoc, add_comm 1] using ih
  | @option type len data tail hne hact hlen h ih =>
    have htype := mem_of_bytes front type (len :: (data ++ tail) ++ rest) hbytes
    have hlenb : iobuf.mem (front.length + 1) = len := by
      simpa using mem_of_bytes (front ++ [type]) len ((data ++ tail) ++ rest)
        (by simpa using hbytes)
    have ih := ih (front ++ type :: len :: data) (by simpa using hbytes)
    rw [ipv6CheckOptionsLoop, if_pos (by simp), htype,
      if_pos (by simpa [ipv6CanIgnoreOpt] using hact), if_neg hne, hlenb, ← hlen]
    simpa [add_assoc, add_comm, add_left_comm] using ih

section

variable {env : Ipv6RxEnv} {fragments : List Fragment} {iobuf : IoBuffer} (hdrlen : ℕ)

/-- Whatever an extension header with a length field holds, the walk rejects
the packet or goes on at the offset that the length field says *in bytes*. -/
theorem ipv6RxTurn_number (type : ExtensionType) :
    (∃ rc, ipv6RxTurn env fragments iobuf hdrlen type.number = .stop (.rejected rc) fragments) ∨
    ipv6RxTurn env fragments iobuf hdrlen type.number =
      .next fragments iobuf (hdrlen + (8 + (iobuf.mem (hdrlen + 1)).toNat))
        (iobuf.mem hdrlen) := by
  by_cases hshort : iobuf.len < hdrlen + 8
  · exact .inl ⟨.einvalLen, by rw [ipv6RxTurn, if_pos hshort]⟩
  obtain ⟨kind, hkind, hne, -⟩ := ipv6HeaderType_number type
  have hext : ipv6ExtLen iobuf hdrlen kind = 8 + (iobuf.mem (hdrlen + 1)).toNat := by
    cases kind <;> first | rfl | exact absurd rfl hne
  rw [ipv6RxTurn_extension (by omega) hkind hne, hext]
  split
  · exact .inl ⟨_, rfl⟩
  · split
    · exact .inl ⟨_, rfl⟩
    · exact .inr rfl

/-- **A well-formed header with length field zero is skipped**. -/
theorem ipv6RxTurn_zeroLength {front payload : Bytes} {header : ExtensionHeader}
    {headers : List ExtensionHeader} (hzero : header.len = 0)
    (hbytes : iobuf.bytes = front ++ (encodeHeaders protocol (header :: headers) ++ payload)) :
    ipv6RxTurn env fragments iobuf front.length header.type.number =
      .next fragments iobuf (front.length + 8) (firstHeader protocol headers) := by
  have hbody : header.body.length = 6 := by simpa [hzero] using header.length_body
  have hlen : front.length + 8 ≤ iobuf.len := by
    rw [← length_bytes, hbytes]
    simp [encodeHeaders, hbody]
  have hnext : iobuf.mem front.length = firstHeader protocol headers :=
    mem_of_bytes front _ _ hbytes
  have hfield : iobuf.mem (front.length + 1) = 0 := by
    simpa [hzero] using mem_of_bytes (front ++ [firstHeader protocol headers]) header.len
      (header.body ++ encodeHeaders protocol headers ++ payload)
      (by simpa [encodeHeaders] using hbytes)
  obtain ⟨kind, hkind, hne, hrouting⟩ := ipv6HeaderType_number header.type
  have hext : ipv6ExtLen iobuf front.length kind = 8 := by
    cases kind <;> simp [ipv6ExtLen, hfield]
  have hcheck : kind ≠ .routing → ipv6CheckOptions iobuf front.length 8 = .ok () := by
    intro hk
    have hopt := header.ignorable (fun h => hk (hrouting.2 h))
    simpa [ipv6CheckOptions, hbody] using
      ipv6CheckOptionsLoop_ignorable hopt (front ++ [firstHeader protocol headers, header.len])
        (encodeHeaders protocol headers ++ payload) (by simpa [encodeHeaders] using hbytes)
  rw [ipv6RxTurn_extension hlen hkind hne, hext, if_neg (by omega), hnext]
  by_cases hk : kind = .routing
  · simp [hk]
  · simp [hcheck hk]

variable (env fragments) in
/-- **The walk stays in step** over headers with length field zero.  By
induction on these headers, the part in front growing by eight bytes at a time. -/
theorem ipv6RxLoop_zeroLength {payload : Bytes} (headers rest : List ExtensionHeader)
    (hzero : ∀ header ∈ headers, header.len = 0) (front : Bytes)
    (hbytes : iobuf.bytes = front ++ (encodeHeaders protocol (headers ++ rest) ++ payload)) :
    ∃ front' : Bytes,
      iobuf.bytes = front' ++ (encodeHeaders protocol rest ++ payload) ∧
      ipv6RxLoop env fragments iobuf front.length (firstHeader protocol (headers ++ rest)) =
        ipv6RxLoop env fragments iobuf front'.length (firstHeader protocol rest) := by
  induction headers generalizing front with
  | nil => exact ⟨front, hbytes, rfl⟩
  | cons header headers ih =>
    have hlen : header.len = 0 := hzero header (by simp)
    have hbody : header.body.length = 6 := by simpa [hlen] using header.length_body
    have hturn : ipv6RxTurn env fragments iobuf front.length header.type.number =
        .next fragments iobuf (front.length + 8) (firstHeader protocol (headers ++ rest)) :=
      ipv6RxTurn_zeroLength hlen hbytes
    obtain ⟨front', hbytes', hloop⟩ :=
      ih (fun h hh => hzero h (by simp [hh]))
        (front ++ firstHeader protocol (headers ++ rest) :: header.len :: header.body)
        (by simpa [encodeHeaders] using hbytes)
    refine ⟨front', hbytes', ?_⟩
    rw [← hloop]
    simpa [firstHeader, hbody] using ipv6RxLoop_next hturn

/-- In front of an upper-layer payload the walk ends: the rest of the buffer is
handed up, or is too short. -/
theorem ipv6RxLoop_protocol (h : upperProtocol protocol) :
    (∃ rc, (ipv6RxLoop env fragments iobuf hdrlen protocol).1 = .rejected rc) ∨
    (ipv6RxLoop env fragments iobuf hdrlen protocol).1 =
      .delivered (ipv6Deliver env iobuf hdrlen protocol) := by
  by_cases hshort : iobuf.len < hdrlen + 8
  · exact .inl ⟨_, by rw [ipv6RxLoop_short hshort]⟩
  · exact .inr (by rw [ipv6RxLoop_upper (by omega) (ipv6HeaderType_upper h)])

/-- **Where the walk is out of step**, the byte it takes for the next-header
value decides: if it names a protocol, a delivery can only be under that protocol. -/
theorem ipv6RxLoop_misread (type : ExtensionType) (h : upperProtocol (iobuf.mem hdrlen)) :
    (∃ rc, (ipv6RxLoop env fragments iobuf hdrlen type.number).1 = .rejected rc) ∨
    ∃ hdrlen', (ipv6RxLoop env fragments iobuf hdrlen type.number).1 =
      .delivered (ipv6Deliver env iobuf hdrlen' (iobuf.mem hdrlen)) := by
  rcases ipv6RxTurn_number hdrlen type with ⟨rc, hstop⟩ | hnext
  · exact .inl ⟨rc, by rw [ipv6RxLoop_stop hstop]⟩
  · rw [ipv6RxLoop_next hnext]
    rcases ipv6RxLoop_protocol _ h with hrej | hdel
    · exact .inl hrej
    · exact .inr ⟨_, hdel⟩

end

@[simp] theorem bytes_ofFrame (frame : LlFrame) (after : ℕ → UInt8) :
    (IoBuffer.ofFrame frame after).bytes = frame.bytes := by
  refine ext_getElem (by simp [IoBuffer.ofFrame]) fun i h₁ h₂ => ?_
  simp [IoBuffer.bytes, IoBuffer.ofFrame, h₂]

/-- **A carried packet reaches the walk** over its extension headers, in a
buffer that ends where the packet does. -/
theorem ipv6Rx_carried {env : Ipv6RxEnv} (hframe : Carries frame packet) (henv : Accepts env packet)
    (fragments : List Fragment) :
    ∃ (iobuf : IoBuffer) (front : Bytes), front.length = 40 ∧
      iobuf.bytes = front ++ packet.content ∧ ipv6Src iobuf = packet.src ∧
      ipv6Dest iobuf = packet.dest ∧
      ipv6Rx env fragments frame =
        ipv6RxLoop env fragments iobuf 40 (firstHeader packet.protocol packet.headers) := by
  obtain ⟨padding, hpad⟩ := hframe
  obtain ⟨b₁, b₂, b₃, hflow⟩ := length_eq_three.1 packet.length_flow
  have hlencode := packet.length_encode
  have hcontent : packet.content.length < 65536 := by
    have := packet.fits
    simp only [Ipv6Packet.content, length_append]
    omega
  have hlen : frame.bytes.length = 40 + packet.content.length + padding.length := by
    rw [← hpad, length_append, hlencode]
  -- the fields of the fixed header, read from the untruncated buffer
  have hbytes := bytes_ofFrame frame env.after
  rw [← hpad] at hbytes
  simp only [Ipv6Packet.encode, hflow, cons_append, append_assoc]
    at hbytes
  have hver := mem_of_bytes [] _ _ hbytes
  have hnext := mem_of_bytes [_, _, _, _, _, _] _ _ hbytes
  have hsrc := field_of_bytes [_, _, _, _, _, _, _, _] packet.src _ hbytes
  have hdest := field_of_bytes (_ :: _ :: _ :: _ :: _ :: _ :: _ :: _ :: packet.src) packet.dest _
    hbytes
  simp only [length_cons, length_nil, packet.length_src, packet.length_dest]
    at hver hnext hsrc hdest
  have hntohs : (IoBuffer.ofFrame frame env.after).ntohs 4 = packet.content.length := by
    have hhi := mem_of_bytes [_, _, _, _] _ _ hbytes
    have hlo := mem_of_bytes [_, _, _, _, _] _ _ hbytes
    simp only [length_cons, length_nil] at hhi hlo
    simp only [IoBuffer.ntohs, hhi, hlo, UInt8.toNat_ofNat']
    omega
  have hstated : statedLen frame = packet.content.length := by
    rw [← ntohs_ofFrame frame env.after (by omega), hntohs]
  have htrunc := bytes_ipv6Truncate frame env.after (by omega)
  rw [hstated, ← hpad, ← hlencode, take_left] at htrunc
  refine ⟨ipv6Truncate (IoBuffer.ofFrame frame env.after), packet.encode.take 40, ?_, ?_, ?_, ?_, ?_⟩
  · rw [length_take]
    omega
  · rw [htrunc]
    conv_lhs => rw [← take_append_drop 40 packet.encode]
    simp [Ipv6Packet.encode, hflow, packet.length_src, packet.length_dest, drop_append]
  · simpa [ipv6Src, IoBuffer.field] using hsrc
  · simpa [ipv6Dest, IoBuffer.field] using hdest
  · rw [ipv6Rx_accepted (by omega) ?_ (by omega) ?_, hnext]
    · rw [hver, UInt8.toNat_ofNat']
      omega
    · rwa [ipv6Dest, hdest]

section

variable {env : Ipv6RxEnv} (hframe : Carries frame packet) (henv : Accepts env packet)
  (fragments : List Fragment)
include hframe henv

/-- The walk is in step behind any first headers with length field zero. -/
theorem ipv6Rx_walked {headers rest : List ExtensionHeader}
    (hsplit : packet.headers = headers ++ rest) (hzero : ∀ header ∈ headers, header.len = 0) :
    ∃ (iobuf : IoBuffer) (front : Bytes),
      iobuf.bytes = front ++ (encodeHeaders packet.protocol rest ++ packet.payload) ∧
      ipv6Src iobuf = packet.src ∧ ipv6Dest iobuf = packet.dest ∧
      ipv6Rx env fragments frame =
        ipv6RxLoop env fragments iobuf front.length (firstHeader packet.protocol rest) := by
  obtain ⟨iobuf, front, hfront, hbytes, hsrc, hdest, hrx⟩ := ipv6Rx_carried hframe henv fragments
  rw [Ipv6Packet.content, hsplit] at hbytes
  obtain ⟨front', hbytes', hloop⟩ :=
    ipv6RxLoop_zeroLength env fragments headers rest hzero front hbytes
  exact ⟨iobuf, front', hbytes', hsrc, hdest, by rw [hrx, hsplit, ← hfront, hloop]⟩

/-- **Packets whose headers have length field zero** are delivered exactly if their
payload has at least eight bytes. -/
theorem deliversExactly_zeroLength (hzero : ∀ header ∈ packet.headers, header.len = 0) :
    DeliversExactly packet (ipv6Rx env fragments frame).1 ↔ 8 ≤ packet.payload.length := by
  obtain ⟨iobuf, front, hbytes, hsrc, hdest, hrx⟩ :=
    ipv6Rx_walked hframe henv fragments (append_nil _).symm hzero
  have hlen : iobuf.len = front.length + packet.payload.length := by
    rw [← length_bytes, hbytes]
    simp [encodeHeaders]
  rw [hrx, firstHeader]
  by_cases height : 8 ≤ packet.payload.length
  · rw [ipv6RxLoop_upper (by omega) (ipv6HeaderType_upper packet.upper)]
    refine ⟨fun _ => height, fun _ => ⟨_, rfl, ?_, rfl, hsrc, hdest⟩⟩
    simp [ipv6Deliver, bytes_iobPull, hbytes, encodeHeaders]
  · rw [ipv6RxLoop_short (by omega)]
    refine iff_of_false ?_ height
    rintro ⟨_, h, -⟩
    cases h

end

variable (byte : UInt8)

/-- Options that fill a body of `8 * len + 6` bytes: padding, with a two-byte PadN
option placed so that its first byte is the one that the walk takes for the next
header's next-header value. -/
def misreadBody (len : ℕ) : Bytes :=
  if len = 0 then List.replicate 6 0
  else List.replicate (4 + len) 0 ++ [1, 2, byte, 0] ++ List.replicate (7 * len - 2) 0

theorem ignorableOptions_replicate (n : ℕ) {rest : Bytes} (h : IgnorableOptions rest) :
    IgnorableOptions (replicate n 0 ++ rest) := by
  induction n with
  | zero => simpa using h
  | succ n ih =>
    exact .pad1 ih

theorem ignorableOptions_misreadBody (len : ℕ) : IgnorableOptions (misreadBody byte len) := by
  have hpad (n : ℕ) : IgnorableOptions (replicate n 0) := by
    simpa using ignorableOptions_replicate n .nil
  unfold misreadBody
  split
  · exact hpad 6
  · rw [append_assoc]
    refine ignorableOptions_replicate _ ?_
    exact @IgnorableOptions.option 1 2 [byte, 0] _ (by decide) (by decide) rfl (hpad _)

/-- The header of the given type and length field with such a body. -/
def misreadHeader (shape : ExtensionType × UInt8) : ExtensionHeader where
  type := shape.1
  len := shape.2
  body := misreadBody byte shape.2.toNat
  length_body := by
    unfold misreadBody
    split
    · simp [*]
    · simp
      omega
  ignorable := fun _ => ignorableOptions_misreadBody byte _

/-- The packet of the given shape made of such headers. -/
def misreadPacket (shape : List (ExtensionType × UInt8)) (protocol : UInt8)
    (len : ℕ) (hupper : upperProtocol protocol) (hfits : shapeLength shape + len ≤ 65535) :
    Ipv6Packet where
  trafficClass := 0
  flow := [0, 0, 0]
  hopLimit := 1
  src := List.replicate 16 0
  dest := List.replicate 16 0
  headers := shape.map (misreadHeader byte)
  protocol := protocol
  payload := List.replicate len 0
  length_flow := rfl
  length_src := by simp
  length_dest := by simp
  upper := hupper
  fits := by
    rw [length_encodeHeaders]
    simpa [Function.comp_def, misreadHeader] using hfits

theorem shape_misreadPacket (shape : List (ExtensionType × UInt8)) (protocol : UInt8)
    (len : ℕ) (hupper : upperProtocol protocol) (hfits : shapeLength shape + len ≤ 65535) :
    (misreadPacket byte shape protocol len hupper hfits).shape = shape := by
  simp [Ipv6Packet.shape, misreadPacket, misreadHeader, Function.comp_def]

theorem not_deliversExactly_rejected {outcome : Ipv6Outcome} (h : ∃ rc, outcome = .rejected rc) :
    ¬ DeliversExactly packet outcome := by
  obtain ⟨rc, rfl⟩ := h
  rintro ⟨_, h, -⟩
  cases h

/-- **Behind a header with a nonzero length field the walk is out of step**:
when it was the last header, too much is handed up; when another one follows, its
next-header value is read from inside this header's options. -/
theorem not_deliversExactly_longHeader {env : Ipv6RxEnv} (hframe : Carries frame packet)
    (henv : Accepts env packet) (fragments : List Fragment) {byte len : UInt8}
    {type : ExtensionType} {headers rest : List ExtensionHeader}
    (hsplit : packet.headers = headers ++ misreadHeader byte (type, len) :: rest)
    (hzero : ∀ header ∈ headers, header.len = 0) (hne : len ≠ 0) (hupper : upperProtocol byte)
    (hbyte : byte ≠ packet.protocol) : ¬ DeliversExactly packet (ipv6Rx env fragments frame).1 := by
  obtain ⟨iobuf, front', hbytes', -, -, hrx⟩ := ipv6Rx_walked hframe henv fragments hsplit hzero
  rw [hrx]
  have hpos : len.toNat ≠ 0 := fun h => hne (UInt8.toNat_inj.1 h)
  -- the body as the walk will find it
  have hbody : (misreadHeader byte (type, len)).body = replicate (4 + len.toNat) 0 ++
      [1, 2, byte, 0] ++ replicate (7 * len.toNat - 2) 0 := by
    simp [misreadHeader, misreadBody, hpos]
  have hnext : iobuf.mem front'.length = firstHeader packet.protocol rest :=
    mem_of_bytes front' _ _ hbytes'
  have hfield : iobuf.mem (front'.length + 1) = len := by
    simpa using mem_of_bytes (front' ++ [firstHeader packet.protocol rest]) len _
      (by rw [hbytes', append_assoc]; rfl)
  rw [show firstHeader packet.protocol (misreadHeader byte (type, len) :: rest) = type.number
    from rfl]
  rcases ipv6RxTurn_number front'.length type with ⟨rc, hstop⟩ | hturn
  · exact not_deliversExactly_rejected ⟨rc, by rw [ipv6RxLoop_stop hstop]⟩
  rw [ipv6RxLoop_next hturn, hfield, hnext]
  cases rest with
  | nil =>
    rcases ipv6RxLoop_protocol (front'.length + (8 + len.toNat)) packet.upper with hrej | hdel
    · exact not_deliversExactly_rejected hrej
    · rintro ⟨delivery, hd, hpayload, -⟩
      have hlength := congrArg List.length hpayload
      rw [firstHeader, hdel] at hd
      cases hd
      rw [ipv6Deliver, bytes_iobPull, hbytes'] at hlength
      simp [encodeHeaders, hbody] at hlength
      omega
  | cons header rest =>
    have hmisread : iobuf.mem (front'.length + (8 + len.toNat)) = byte := by
      have h := mem_of_bytes (front' ++ firstHeader packet.protocol (header :: rest) :: len ::
          (replicate (4 + len.toNat) 0 ++ [1, 2])) byte
        (0 :: replicate (7 * len.toNat - 2) 0 ++
          encodeHeaders packet.protocol (header :: rest) ++ packet.payload)
        (by
          rw [hbytes', encodeHeaders, hbody]
          simp [misreadHeader])
      rw [← h]
      congr 1
      simp
      omega
    rw [firstHeader]
    rcases ipv6RxLoop_misread _ header.type (hmisread.symm ▸ hupper) with hrej | ⟨hdrlen, hdel⟩
    · exact not_deliversExactly_rejected hrej
    · rintro ⟨delivery, hd, -, hprotocol, -⟩
      rw [hdel] at hd
      cases hd
      exact hbyte (by rw [← hprotocol, ← hmisread]; rfl)

def packetFrame (packet : Ipv6Packet) : LlFrame where
  bytes := packet.encode
  fits := by
    have := packet.fits
    rw [packet.length_encode, Ipv6Packet.content, length_append, sizeRange]
    omega

theorem carries_packetFrame (packet : Ipv6Packet) : Carries (packetFrame packet) packet :=
  prefix_refl _

def otherProtocol (protocol : UInt8) : UInt8 := if protocol = 6 then 17 else 6

theorem upperProtocol_otherProtocol (protocol : UInt8) : upperProtocol (otherProtocol protocol) := by
  unfold otherProtocol upperProtocol
  split <;> decide

theorem otherProtocol_ne (protocol : UInt8) : otherProtocol protocol ≠ protocol := by
  unfold otherProtocol
  split_ifs with h
  · rw [h]
    decide
  · exact Ne.symm h

/-- The first header with a nonzero length field. -/
theorem exists_first_nonzero {shape : List (ExtensionType × UInt8)}
    (h : ¬ ∀ header ∈ shape, header.2 = 0) :
    ∃ zeros type len rest, shape = zeros ++ (type, len) :: rest ∧
      (∀ header ∈ zeros, header.2 = 0) ∧ len ≠ 0 := by
  cases hfind : shape.find? fun header => header.2 ≠ 0 with
  | none => exact absurd (fun header hmem => by simpa using find?_eq_none.1 hfind header hmem) h
  | some header =>
    obtain ⟨hne, zeros, rest, hsplit, hzeros⟩ := find?_eq_some_iff_append.1 hfind
    exact ⟨zeros, header.1, header.2, rest, hsplit, fun other hmem => by simpa using hzeros other hmem,
      by simpa using hne⟩

/-- **Which chains of extension headers are walked over correctly.**  Every packet of
the given shape is delivered exactly if and only if there is none, or all length
fields are zero and the payload has at least eight bytes. -/
theorem shapeDelivered_iff (shape : List (ExtensionType × UInt8))
    (protocol : {protocol : UInt8 // upperProtocol protocol}) (len : ℕ) :
    ShapeDelivered shape protocol len ↔
      65535 < shapeLength shape + len ∨ ((∀ header ∈ shape, header.2 = 0) ∧ 8 ≤ len) := by
  constructor
  · intro h
    by_contra hcond
    simp only [not_or, not_and, not_lt] at hcond
    obtain ⟨hfits, hcond⟩ := hcond
    let packet := misreadPacket (otherProtocol protocol) shape protocol len protocol.2 hfits
    have hframe := carries_packetFrame packet
    have hexact := h packet (shape_misreadPacket _ shape _ len _ _) rfl
      (length_replicate ..) _ multicastEnv [] hframe (.inl rfl)
    by_cases hzero : ∀ header ∈ shape, header.2 = 0
    · have hzero' : ∀ header ∈ packet.headers, header.len = 0 := by
        intro header hmem
        obtain ⟨field, hfield, rfl⟩ := mem_map.mp hmem
        exact hzero field hfield
      have hlen := (deliversExactly_zeroLength hframe (.inl rfl) [] hzero').1 hexact
      exact hcond hzero (by simpa [packet, misreadPacket] using hlen)
    · obtain ⟨zeros, type, field, rest, hsplit, hzeros, hne⟩ := exists_first_nonzero hzero
      have hheaders : packet.headers =
          zeros.map (misreadHeader (otherProtocol protocol)) ++
            misreadHeader (otherProtocol protocol) (type, field) ::
              rest.map (misreadHeader (otherProtocol protocol)) := by
        simp [packet, misreadPacket, hsplit]
      refine not_deliversExactly_longHeader hframe (.inl rfl) [] hheaders (fun header hmem => ?_) hne
        (upperProtocol_otherProtocol _) (otherProtocol_ne _) hexact
      obtain ⟨field', hfield, rfl⟩ := mem_map.mp hmem
      exact hzeros field' hfield
  · rintro hcond packet rfl hprotocol rfl frame env fragments hframe henv
    have hfits := packet.fits
    rw [length_encodeHeaders] at hfits
    rcases hcond with hlong | ⟨hzero, hlen⟩
    · exact absurd hfits (by rw [Ipv6Packet.shape] at hlong; omega)
    · refine (deliversExactly_zeroLength hframe henv fragments fun header hmem => ?_).2 hlen
      exact hzero (header.type, header.len) (mem_map.mpr ⟨header, hmem, rfl⟩)

/-- A UDP packet behind a destination options header of sixteen bytes, all padding. -/
def longHeaderPacket : Ipv6Packet :=
  misreadPacket 6 [(.destination, 1)] 17 8 (by unfold upperProtocol; decide) (by decide)

/-- It is not delivered as sent: the walk takes the header to be nine bytes long. -/
theorem longHeaderPacket_misdelivered :
    ¬ DeliversExactly longHeaderPacket
      (ipv6Rx multicastEnv [] (packetFrame longHeaderPacket)).1 :=
  have hheaders : longHeaderPacket.headers = [] ++ [misreadHeader 6 (.destination, 1)] := rfl
  not_deliversExactly_longHeader (carries_packetFrame _) (.inl rfl) [] hheaders (by simp)
    (by decide) (by unfold upperProtocol; decide) (by decide)

end Ipxe.Analysis
