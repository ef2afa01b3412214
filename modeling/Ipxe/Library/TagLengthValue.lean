import Ipxe.Library.Bytes
import Mathlib.Tactic

/-!
# Tag, length and value

One tag byte, a length field, and as many content bytes as the length field denotes.  How the length
is read is a parameter `len`, since a decoder may compute in words of fixed width; the exact reading
is `tlvLength`.
-/

namespace Ipxe.Library

open List

variable {bytes : Bytes} {tag : UInt8} {content rest : Bytes}

/-- The number that length bytes denote, most significant first. -/
def tlvLength (octets : Bytes) : ℕ := octets.foldl (fun len octet => len * 256 + octet.toNat) 0

/-- The tag, the bytes that carry the length, and what follows the length field. -/
def tlvHeader : Bytes → Option (UInt8 × Bytes × Bytes)
  | tag :: first :: rest =>
    if first.toNat < 128 then some (tag, [first], rest)
    else if first.toNat - 128 ≤ rest.length then
      some (tag, rest.take (first.toNat - 128), rest.drop (first.toNat - 128))
    else none
  | _ => none

/-- A header has two octets at least. -/
theorem tlvHeader_length {octets body : Bytes} (h : tlvHeader bytes = some (tag, octets, body)) :
    body.length + 2 ≤ bytes.length := by
  unfold tlvHeader at h
  split at h
  · split_ifs at h
    all_goals
      simp only [Option.some.injEq, Prod.mk.injEq] at h
      obtain ⟨-, -, rfl⟩ := h
      simp
  · cases h

/-- A header has 129 octets at most. -/
theorem length_le_tlvHeader {octets body : Bytes}
    (h : tlvHeader bytes = some (tag, octets, body)) : bytes.length ≤ body.length + 129 := by
  unfold tlvHeader at h
  split at h
  · next first rest =>
      have hfirst := first.toNat_lt
      split_ifs at h
      all_goals
        simp only [Option.some.injEq, Prod.mk.injEq] at h
        obtain ⟨-, -, rfl⟩ := h
        simp only [length_cons, length_drop]
        omega
  · cases h

/-- The body is what is left. -/
theorem suffix_of_tlvHeader {octets body : Bytes}
    (h : tlvHeader bytes = some (tag, octets, body)) : body <:+ bytes := by
  unfold tlvHeader at h
  split at h
  · next first rest =>
      have hrest : rest <:+ tag :: first :: rest := (suffix_cons first rest).trans (suffix_cons _ _)
      split_ifs at h
      all_goals
        simp only [Option.some.injEq, Prod.mk.injEq] at h
        obtain ⟨rfl, -, rfl⟩ := h
      · exact hrest
      · exact (drop_suffix _ _).trans hrest
  · cases h

section

variable (len : Bytes → ℕ)

/-- The tag and the content of the first object, and what follows it. -/
def tlvObject (bytes : Bytes) : Option (UInt8 × Bytes × Bytes) :=
  match tlvHeader bytes with
  | none => none
  | some (tag, octets, body) =>
    if len octets ≤ body.length then some (tag, body.take (len octets), body.drop (len octets))
    else none

variable {len}

/-- An object has a header and its length of body. -/
theorem tlvObject_eq_some (h : tlvObject len bytes = some (tag, content, rest)) :
    ∃ octets body, tlvHeader bytes = some (tag, octets, body) ∧ len octets ≤ body.length ∧
      content = body.take (len octets) ∧ rest = body.drop (len octets) := by
  unfold tlvObject at h
  split at h
  · cases h
  · next tag' octets body hheader =>
      split_ifs at h with hle
      simp only [Option.some.injEq, Prod.mk.injEq] at h
      obtain ⟨rfl, rfl, rfl⟩ := h
      exact ⟨octets, body, hheader, hle, rfl, rfl⟩

/-- An object has two octets at least. -/
theorem tlvObject_length (h : tlvObject len bytes = some (tag, content, rest)) :
    rest.length + 2 ≤ bytes.length := by
  obtain ⟨octets, body, hheader, -, -, rfl⟩ := tlvObject_eq_some h
  have := tlvHeader_length hheader
  simp only [length_drop]
  omega

variable (len)

/-- Every object of a list of objects, up to the first place where none begins. -/
def tlvObjects (bytes : Bytes) : List (UInt8 × Bytes) :=
  match _h : tlvObject len bytes with
  | none => []
  | some (tag, content, rest) => (tag, content) :: tlvObjects rest
termination_by bytes.length
decreasing_by have := tlvObject_length _h; omega

/-- What lies where the objects of a list end. -/
def tlvRest (bytes : Bytes) : Bytes :=
  match _h : tlvObject len bytes with
  | none => bytes
  | some (_, _, rest) => tlvRest rest
termination_by bytes.length
decreasing_by have := tlvObject_length _h; omega

variable {len}

/-- No object is left. -/
theorem tlvObjects_stop (h : tlvObject len bytes = none) : tlvObjects len bytes = [] := by
  rw [tlvObjects]
  split <;> simp_all

/-- The first object, then the rest. -/
theorem tlvObjects_next (h : tlvObject len bytes = some (tag, content, rest)) :
    tlvObjects len bytes = (tag, content) :: tlvObjects len rest := by
  rw [tlvObjects]
  split <;> simp_all

/-- The rest is what is no object. -/
theorem tlvRest_stop (h : tlvObject len bytes = none) : tlvRest len bytes = bytes := by
  rw [tlvRest]
  split <;> simp_all

/-- An object is not in the rest. -/
theorem tlvRest_next (h : tlvObject len bytes = some (tag, content, rest)) :
    tlvRest len bytes = tlvRest len rest := by
  rw [tlvRest]
  split <;> simp_all

variable (len) in
/-- Induction object by object. -/
@[elab_as_elim]
theorem tlv_induction {motive : Bytes → Prop}
    (stop : ∀ bytes, tlvObject len bytes = none → motive bytes)
    (next : ∀ bytes tag content rest, tlvObject len bytes = some (tag, content, rest) →
      motive rest → motive bytes)
    (bytes : Bytes) : motive bytes := by
  induction hn : bytes.length using Nat.strong_induction_on generalizing bytes with
  | _ n ih =>
    cases hobject : tlvObject len bytes with
    | none => exact stop bytes hobject
    | some object =>
      obtain ⟨tag, content, rest⟩ := object
      have hlt := tlvObject_length hobject
      exact next bytes tag content rest hobject (ih rest.length (by omega) rest rfl)

end

section

variable {len len' : Bytes → ℕ} {bound : ℕ}

/-- Two readings that agree below a bound find the same first object in a shorter byte
string, as far as the first of them finds one. -/
theorem tlvObject_of_agree (hagree : ∀ octets, len octets < bound → len' octets = len octets)
    (hlen : bytes.length < bound) (h : tlvObject len bytes = some (tag, content, rest)) :
    tlvObject len' bytes = some (tag, content, rest) := by
  obtain ⟨octets, body, hheader, hle, rfl, rfl⟩ := tlvObject_eq_some h
  have := tlvHeader_length hheader
  have hsame := hagree octets (by omega)
  simp only [tlvObject, hheader, hsame, if_pos hle]

/-- The objects that the second reading finds are those of the first one, and those
that it finds where the first one stops. -/
theorem tlvObjects_of_agree (hagree : ∀ octets, len octets < bound → len' octets = len octets)
    (hlen : bytes.length < bound) :
    tlvObjects len' bytes = tlvObjects len bytes ++ tlvObjects len' (tlvRest len bytes) := by
  induction bytes using (tlv_induction len) with
  | stop bytes hstop => rw [tlvObjects_stop hstop, tlvRest_stop hstop, nil_append]
  | next bytes tag content rest hnext ih =>
    have := tlvObject_length hnext
    rw [tlvObjects_next (tlvObject_of_agree hagree hlen hnext), tlvObjects_next hnext,
      tlvRest_next hnext, ih (by omega), cons_append]

end

end Ipxe.Library
