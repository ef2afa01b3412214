import Ipxe.Model.Ipv6

/-!
# Which bytes `ipv6_rx` hands to the transport layer

The check compares the stated *payload* length with the length of the *whole* frame, so a frame may
state up to 40 bytes more than it has, and the truncation then moves the tail forwards.
-/

namespace Ipxe.Analysis

open Model List

variable (iobuf : IoBuffer) {fragments : List Fragment} (frame : LlFrame) (after : ℕ → UInt8)

/-- The payload length stated in the header of a frame. -/
def statedLen (frame : LlFrame) : ℕ :=
  (frame.bytes.getD 4 0).toNat * 256 + (frame.bytes.getD 5 0).toNat

/-- Packets that can be put together from `start` and reassembly buffers: `start`
itself, or a buffer's packet followed by a final part of such a packet. -/
inductive Assembled (fragments : List Fragment) (start : Bytes) : Bytes → Prop
  | start : Assembled fragments start start
  | extend {fragment : Fragment} {packet : Bytes} (hdrlen : ℕ) (hmem : fragment ∈ fragments)
      (h : Assembled fragments start packet) :
      Assembled fragments start (fragment.iobuf.bytes ++ packet.drop hdrlen)

/-- **Length safety of one reception.**  A frame that states more payload than it has is rejected.
A payload handed up is the stated payload without the `skipped` bytes of the extension headers, or
put together from it and the buffers used up for it. -/
def RxLengthSafe (frame : LlFrame) (fragments : List Fragment)
    (result : Ipv6Outcome × List Fragment) : Prop :=
  (frame.bytes.length < 40 + statedLen frame → ∃ rc, result.1 = .rejected rc) ∧
  ∀ delivery, result.1 = .delivered delivery →
    (result.2 = fragments ∧ ∃ skipped ≤ statedLen frame,
      delivery.payload = (frame.bytes.drop (40 + skipped)).take (statedLen frame - skipped) ∧
      delivery.payload.length = statedLen frame - skipped) ∨
    (result.2.length < fragments.length ∧ ∃ packet hdrlen,
      Assembled fragments (frame.bytes.take (40 + statedLen frame)) packet ∧
      delivery.payload = packet.drop hdrlen)

@[simp] theorem length_bytes : iobuf.bytes.length = iobuf.len := by
  simp [IoBuffer.bytes]

theorem bytes_iobPull (len : ℕ) : (iobuf.iobPull len).bytes = iobuf.bytes.drop len := by
  apply ext_getElem <;> simp [IoBuffer.bytes, IoBuffer.iobPull, add_comm]

theorem bytes_append (other : IoBuffer) :
    (iobuf.append other).bytes = iobuf.bytes ++ other.bytes := by
  refine ext_getElem (by simp [IoBuffer.append]) fun i h₁ h₂ => ?_
  by_cases hi : i < iobuf.len
  · simp [IoBuffer.bytes, IoBuffer.append, hi]
  · simp [IoBuffer.bytes, IoBuffer.append, getElem_append]

variable {fragments' : List Fragment}

/-- More reassembly buffers can only put together more packets. -/
theorem Assembled.mono {start packet : Bytes}
    (hsub : fragments' ⊆ fragments) (h : Assembled fragments' start packet) :
    Assembled fragments start packet := by
  induction h with
  | start => exact .start
  | extend hdrlen hmem _ ih => exact .extend hdrlen (hsub hmem) ih

/-- Assembling from an assembled packet is assembling from the start. -/
theorem Assembled.trans {start middle packet : Bytes} (h₁ : Assembled fragments start middle)
    (h₂ : Assembled fragments middle packet) :
    Assembled fragments start packet := by
  induction h₂ with
  | start => exact h₁
  | extend hdrlen hmem _ ih => exact .extend hdrlen hmem ih

/-- What a delivery out of the loop may be, when the loop starts on `iobuf`. -/
def LoopDelivery (fragments : List Fragment) (iobuf : IoBuffer) (hdrlen : ℕ)
    (result : Ipv6Outcome × List Fragment) : Prop :=
  ∀ delivery, result.1 = .delivered delivery →
    (result.2 = fragments ∧ ∃ offset, hdrlen ≤ offset ∧ offset ≤ iobuf.len ∧
      delivery.payload = iobuf.bytes.drop offset) ∨
    (result.2.length < fragments.length ∧ ∃ packet hdrlen,
      Assembled fragments iobuf.bytes packet ∧ delivery.payload = packet.drop hdrlen)

/-- A turn that ends the call hands up, if anything, the rest of the buffer. -/
theorem ipv6RxTurn_stop {env : Ipv6RxEnv} {iobuf : IoBuffer}
    {hdrlen : ℕ} {nextHeader : UInt8} {outcome : Ipv6Outcome}
    (h : ipv6RxTurn env fragments iobuf hdrlen nextHeader = .stop outcome fragments') :
    LoopDelivery fragments iobuf hdrlen (outcome, fragments') := by
  unfold ipv6RxTurn at h
  split at h
  · cases h
    simp [LoopDelivery]
  cases hnh : ipv6HeaderType nextHeader with
  | none =>
    simp only [hnh] at h
    cases h
    rintro delivery ⟨⟩
    exact .inl ⟨rfl, hdrlen, le_rfl, by omega, bytes_iobPull iobuf hdrlen⟩
  | some type =>
    simp only [hnh, ipv6RxFragment] at h
    repeat' split at h
    all_goals cases h
    all_goals simp [LoopDelivery]

/-- **What the loop hands up** is a final part of the buffer it was started
on, at or behind the offset it was started at, or of a packet assembled from that
buffer. -/
theorem ipv6RxLoop_delivered (env : Ipv6RxEnv) (fragments : List Fragment) (iobuf : IoBuffer)
    (hdrlen : ℕ) (nextHeader : UInt8) :
    LoopDelivery fragments iobuf hdrlen (ipv6RxLoop env fragments iobuf hdrlen nextHeader) := by
  fun_induction ipv6RxLoop env fragments iobuf hdrlen nextHeader with
  | case1 fragments iobuf hdrlen nextHeader outcome fragments' h => exact ipv6RxTurn_stop h
  | case2 fragments iobuf hdrlen nextHeader fragments' iobuf' hdrlen' nextHeader' h ih =>
    intro delivery hd
    rcases (ipv6RxTurn_next h).2 with ⟨rfl, rfl, hlt, -⟩ | ⟨hsub, hlt, fragment, hmem, rfl⟩
    · rcases ih delivery hd with ⟨hfr, offset, hle, hlen, hp⟩ | hasm
      · exact .inl ⟨hfr, offset, by omega, hlen, hp⟩
      · exact .inr hasm
    · -- from here on the walk is over the reassembled packet
      have hbase : Assembled fragments iobuf.bytes
          (fragment.iobuf.append (iobuf.iobPull (hdrlen + 8))).bytes := by
        rw [bytes_append, bytes_iobPull]
        exact .extend _ hmem .start
      rcases ih delivery hd with ⟨hfr, offset, -, -, hp⟩ | ⟨hlt', packet, offset, hasm, hp⟩
      · exact .inr ⟨by rw [hfr]; exact hlt, _, offset, hbase, hp⟩
      · exact .inr ⟨by omega, packet, offset, hbase.trans (hasm.mono hsub), hp⟩

theorem ntohs_lt (start : ℕ) : iobuf.ntohs start < 65536 := by
  have h₁ := (iobuf.mem start).toNat_lt
  have h₂ := (iobuf.mem (start + 1)).toNat_lt
  unfold IoBuffer.ntohs
  omega

/-- The two wrapping subtractions of the truncation cancel: the buffer ends
up as long as the header says, longer than the frame if it must be. -/
theorem len_ipv6Truncate :
    (ipv6Truncate (IoBuffer.ofFrame frame after)).len =
      40 + (IoBuffer.ofFrame frame after).ntohs 4 := by
  have hfits := frame.fits
  have hlt := ntohs_lt (IoBuffer.ofFrame frame after) 4
  simp only [ipv6Truncate, IoBuffer.iobUnput, sizeSub, sizeRange, ipv6HeaderLen] at hfits ⊢
  omega

theorem ntohs_ofFrame (h : 40 ≤ frame.bytes.length) :
    (IoBuffer.ofFrame frame after).ntohs 4 = statedLen frame := by
  simp [IoBuffer.ntohs, IoBuffer.ofFrame, statedLen,
    getElem?_eq_getElem (show 4 < frame.bytes.length by omega),
    getElem?_eq_getElem (show 5 < frame.bytes.length by omega)]

/-- A buffer cut back inside its frame holds the start of the frame. -/
theorem bytes_ipv6Truncate (hle : 40 + statedLen frame ≤ frame.bytes.length) :
    (ipv6Truncate (IoBuffer.ofFrame frame after)).bytes =
      frame.bytes.take (40 + statedLen frame) := by
  have htrunc := len_ipv6Truncate frame after
  rw [ntohs_ofFrame frame after (by omega)] at htrunc
  refine ext_getElem ?_ fun i h₁ h₂ => ?_
  · rw [length_bytes, length_take]
    omega
  · rw [length_bytes, htrunc] at h₁
    simp [IoBuffer.bytes, IoBuffer.ofFrame,
      getElem?_eq_getElem (show i < frame.bytes.length by omega)]

/-! ## Which lengths are safe -/

theorem rxLengthSafe_rejected (fragments : List Fragment) (rc : Errno) :
    RxLengthSafe frame fragments (.rejected rc, fragments) := by
  simp [RxLengthSafe]

/-- A loop started behind the fixed header of a buffer that was cut back
inside its frame is length safe. -/
theorem rxLengthSafe_of_le {env : Ipv6RxEnv} {frame : LlFrame} {iobuf : IoBuffer}
    {nextHeader : UInt8} (hle : 40 + statedLen frame ≤ frame.bytes.length)
    (hbytes : iobuf.bytes = frame.bytes.take (40 + statedLen frame)) :
    RxLengthSafe frame fragments (ipv6RxLoop env fragments iobuf ipv6HeaderLen nextHeader) := by
  have hlen : iobuf.len = 40 + statedLen frame := by
    rw [← length_bytes, hbytes, length_take]
    omega
  refine ⟨fun hlt => by omega, fun delivery hd => ?_⟩
  rcases ipv6RxLoop_delivered env fragments iobuf ipv6HeaderLen nextHeader delivery hd with
    ⟨hfr, offset, hge, hoff, hp⟩ | hasm
  · simp only [ipv6HeaderLen] at hge
    have hpayload : delivery.payload = (frame.bytes.drop (40 + (offset - 40))).take
        (statedLen frame - (offset - 40)) := by
      rw [hp, hbytes, drop_take]
      congr 1
      · omega
      · congr 1
        omega
    refine .inl ⟨hfr, offset - 40, by omega, hpayload, ?_⟩
    rw [hpayload, length_take, length_drop]
    omega
  · rw [hbytes] at hasm
    exact .inr hasm

/-- **Every frame of safe lengths is received safely**, whatever it
contains, whoever it is for and whatever has been received before. -/
theorem rxLengthSafe_ipv6Rx (env : Ipv6RxEnv) (fragments : List Fragment) (frame : LlFrame)
    (h : frame.bytes.length < 40 ∨ statedLen frame < 8 ∨
      statedLen frame + 40 ≤ frame.bytes.length ∨ frame.bytes.length < statedLen frame) :
    RxLengthSafe frame fragments (ipv6Rx env fragments frame) := by
  have hrej := rxLengthSafe_rejected frame fragments
  by_cases hshort : frame.bytes.length < 40
  · rw [ipv6Rx, if_pos (by simpa [IoBuffer.ofFrame, ipv6HeaderLen] using hshort)]
    exact hrej _
  have hstated := ntohs_ofFrame frame env.after (by omega)
  have hlen : (IoBuffer.ofFrame frame env.after).len = frame.bytes.length := rfl
  simp only [ipv6Rx, hlen]
  split_ifs with h₁ h₂ h₃ h₄
  · exact hrej _
  · exact hrej _
  · exact hrej _
  · exact hrej _
  · by_cases hle : 40 + statedLen frame ≤ frame.bytes.length
    · exact rxLengthSafe_of_le hle (bytes_ipv6Truncate frame env.after hle)
    · rw [ipv6RxLoop_short]
      · exact hrej _
      · rw [len_ipv6Truncate, ipv6HeaderLen]
        omega

/-- A UDP packet for a multicast group of `n` bytes that states `len` bytes of
payload. -/
def udpBytes (n len : ℕ) : Bytes :=
  [0x60, 0, 0, 0, UInt8.ofNat (len / 256), UInt8.ofNat (len % 256), 17, 0] ++
    List.replicate (n - 8) 0

/-- Reception on an unconfigured device, of multicast packets. -/
def multicastEnv : Ipv6RxEnv where
  miniroutes := []
  netdev := 0
  scopeId := 0
  multicast := true
  after := fun _ => 0
  alloc := fun _ => true

/-- **A frame that is at most 40 bytes short is delivered**, its payload
completed from the memory behind it. -/
theorem ipv6Rx_udpBytes {n len : ℕ} (hframe : frame.bytes = udpBytes n len) (hn : 40 ≤ n)
    (hlen : len < 65536) (h8 : 8 ≤ len) (hle : len ≤ n) :
    ∃ delivery, (ipv6Rx multicastEnv [] frame).1 = .delivered delivery ∧
      delivery.payload.length = len := by
  have hlength : frame.bytes.length = n := by
    simp [hframe, udpBytes]
    omega
  have hstated : statedLen frame = len := by
    simp [statedLen, hframe, udpBytes]
    omega
  have hntohs := ntohs_ofFrame frame multicastEnv.after (by omega)
  have htrunc := len_ipv6Truncate frame multicastEnv.after
  have hver : (IoBuffer.ofFrame frame multicastEnv.after).mem 0 = 0x60 := by
    simp [IoBuffer.ofFrame, hframe, udpBytes]
  have hnext : (IoBuffer.ofFrame frame multicastEnv.after).mem 6 = 17 := by
    simp [IoBuffer.ofFrame, hframe, udpBytes]
  rw [ipv6Rx_accepted (by omega) (by rw [hver]; decide) (by omega) (.inl rfl), hnext,
    ipv6RxLoop_upper (by omega) (by decide)]
  refine ⟨_, rfl, ?_⟩
  simp only [ipv6Deliver, length_bytes, IoBuffer.iobPull]
  omega

/-- **The lengths for which `ipv6_rx` is length safe.**  Frames of `n` bytes that state `len` bytes
of payload are all received safely exactly if the frame is too short for the fixed header, states
fewer than eight bytes, has all that it states, or states more than its whole length. -/
theorem ipv6Rx_lengthSafe_iff (n : Fin sizeRange) (len : Fin 65536) :
    (∀ (frame : LlFrame) (env : Ipv6RxEnv) (fragments : List Fragment),
      frame.bytes.length = n → statedLen frame = len →
      RxLengthSafe frame fragments (ipv6Rx env fragments frame)) ↔
    (n.val < 40 ∨ len.val < 8 ∨ len.val + 40 ≤ n.val ∨ n.val < len.val) := by
  constructor
  · intro h
    by_contra hbad
    have hlength : (udpBytes n len).length = n.val := by
      simp [udpBytes]
      omega
    have hstated : statedLen ⟨udpBytes n len, by omega⟩ = len := by
      simp [statedLen, udpBytes]
      omega
    obtain ⟨delivery, hd, -⟩ := ipv6Rx_udpBytes ⟨udpBytes n len, by omega⟩ rfl
      (by omega) len.isLt (by omega) (by omega)
    obtain ⟨rc, hrc⟩ := (h _ multicastEnv [] hlength hstated).1 (by rw [hstated, hlength]; omega)
    rw [hd] at hrc
    cases hrc
  · rintro hcond frame env fragments hlength hstated
    exact rxLengthSafe_ipv6Rx env fragments frame (by rw [hlength, hstated]; exact hcond)

/-- A frame with eight bytes behind its fixed header that states sixteen. -/
def shortUdpFrame : LlFrame := ⟨udpBytes 48 16, by decide⟩

/-- The sixteen bytes are handed up, eight of them from behind the frame. -/
theorem shortUdpFrame_overread :
    shortUdpFrame.bytes.length = 48 ∧ statedLen shortUdpFrame = 16 ∧
    (∃ delivery, (ipv6Rx multicastEnv [] shortUdpFrame).1 = .delivered delivery ∧
      delivery.payload.length = 16) ∧
    ¬ RxLengthSafe shortUdpFrame [] (ipv6Rx multicastEnv [] shortUdpFrame) := by
  have hd := ipv6Rx_udpBytes shortUdpFrame (n := 48) rfl (by decide) (by decide) (by decide)
    (by decide)
  refine ⟨by decide, by decide, hd, fun hsafe => ?_⟩
  obtain ⟨delivery, hdel, -⟩ := hd
  obtain ⟨rc, hrc⟩ := hsafe.1 (by decide)
  rw [hdel] at hrc
  cases hrc

end Ipxe.Analysis
