import Ipxe.Model.Vsprintf

/-!
# Socket addresses

Parsing the text of an address.  What the outcome depends on besides the text is an
environment: the width of an `unsigned long`, whether the copy of the string can be
allocated, the network devices, and the order of the address converters, which the
linker decides.
-/

namespace Ipxe.Model

open List hiding Vector

inductive SaFamily where
  | inet
  | inet6
  deriving DecidableEq, Repr

/-- A socket address: the family and the bytes of the address. -/
structure SockAddr where
  family : SaFamily
  address : Bytes
  deriving DecidableEq, Repr

structure SocketEnv where
  ulongBits : ℕ
  strdup : Bool
  /-- whether `find_netdev` finds a device of that name -/
  findNetdev : Bytes → Bool
  converters : List SaFamily

variable (env : SocketEnv) (string : Bytes)

/-- One number of a dotted address and what follows it. -/
def inetAtonByte : Option (UInt8 × Bytes) :=
  let number := strtoul env.ulongBits string 0
  if number.2.length = string.length then none
  else if number.1 > 0xff then none
  else some (UInt8.ofNat number.1, number.2)

/-- The loop of `inet_aton`, with so many dots to come. -/
def inetAtonLoop (env : SocketEnv) : ℕ → Bytes → Option Bytes
  | 0, string =>
    match inetAtonByte env string with
    | some (byte, []) => some [byte]
    | _ => none
  | dots + 1, string =>
    match inetAtonByte env string with
    | some (byte, 0x2e :: rest) => (inetAtonLoop env dots rest).map (byte :: ·)
    | _ => none

/-- See net/ipv4.c:631-650 -/
def inetAton : Option Bytes := inetAtonLoop env 3 string

/-- The loop of `inet6_aton`, with room for so many words: the words, and where zeros
are to be inserted.  `first` tells that `nptr` is the start of the string. -/
def inet6AtonLoop (env : SocketEnv) :
    ℕ → Bool → List ℕ → Option ℕ → Bytes → Option (List ℕ × Option ℕ)
  | 0, _, _, _, _ => none
  | room + 1, first, words, pad, nptr =>
    let word := strtoul env.ulongBits nptr 16
    let here : Bool := word.2.length = nptr.length ∧ ¬ first
    if word.1 > 0xffff then none
    else
      match word.2 with
      | [] => some (words ++ [word.1], pad)
      | separator :: rest =>
        if separator ≠ 0x3a then none
        else if here ∧ pad.isSome then none
        else
          inet6AtonLoop env room false (words ++ [word.1])
            (if here then some (words.length + 1) else pad) rest

/-- See net/ipv6.c:824-885 -/
def inet6Aton : Option Bytes :=
  let bytes (words : List ℕ) : Bytes :=
    words.flatMap fun word => [UInt8.ofNat (word / 256), UInt8.ofNat word]
  match inet6AtonLoop env 8 true [] none string with
  | none => none
  | some (words, some pad) =>
    some (bytes (words.take pad ++ List.replicate (8 - words.length) 0 ++ words.drop pad))
  | some (words, none) => if words.length = 8 then some (bytes words) else none

def stripBrackets : Bytes :=
  if string.head? = some 0x5b ∧ string.getLast? = some 0x5d then string.tail.dropLast else string

/-- See net/ipv6.c:980-1042 -/
def ipv6SockAton : Option Bytes :=
  if !env.strdup then none
  else
    let inString := stripBrackets string
    let netdevString := strchr inString 0x25
    match inet6Aton env (inString.takeWhile (· ≠ 0x25)) with
    | none => none
    | some address =>
      match netdevString with
      | some (_ :: name) => if env.findNetdev name then some address else none
      | _ => some address

def sockaddrAton (family : SaFamily) (string : Bytes) : Option Bytes :=
  match family with
  | .inet => inetAton env string
  | .inet6 => ipv6SockAton env string

/-- Parse socket address: the first converter that can decides.
[net/socket.c:60-70] -/
def sockAton : Option SockAddr :=
  env.converters.findSome? fun family => (sockaddrAton env family string).map (SockAddr.mk family)

/-! ## The length of an address -/

theorem inetAtonLoop_length (dots : ℕ) (string address : Bytes)
    (h : inetAtonLoop env dots string = some address) : address.length = dots + 1 := by
  induction dots generalizing string address with
  | zero =>
    rw [inetAtonLoop] at h
    split at h
    · cases h
      rfl
    · cases h
  | succ dots ih =>
    rw [inetAtonLoop] at h
    split at h
    · obtain ⟨rest, hrest, rfl⟩ := Option.map_eq_some_iff.1 h
      rw [length_cons, ih _ rest hrest]
    · cases h

theorem inet6AtonLoop_length (room : ℕ) (first : Bool) (words result : List ℕ)
    (pad pad' : Option ℕ) (nptr : Bytes)
    (h : inet6AtonLoop env room first words pad nptr = some (result, pad')) :
    result.length ≤ words.length + room := by
  induction room generalizing first words pad nptr with
  | zero => cases h
  | succ room ih =>
    rw [inet6AtonLoop] at h
    generalize strtoul env.ulongBits nptr 16 = word at h
    by_cases hbig : word.1 > 0xffff
    · rw [if_pos hbig] at h
      cases h
    · rw [if_neg hbig] at h
      split at h
      · cases h
        simp
      · split_ifs at h
        all_goals
          have := ih _ _ _ _ h
          simp only [length_append, length_singleton] at this
          omega

theorem length_inet6Bytes (words : List ℕ) :
    (words.flatMap fun word => [UInt8.ofNat (word / 256), UInt8.ofNat word]).length =
      2 * words.length := by
  induction words with
  | nil => rfl
  | cons word words ih =>
    rw [flatMap_cons, length_append, ih, length_cons]
    simp only [length_cons, length_nil]
    omega

theorem inet6Aton_length (address : Bytes)
    (h : inet6Aton env string = some address) : address.length = 16 := by
  unfold inet6Aton at h
  split at h
  · cases h
  · next words pad hloop =>
      have := inet6AtonLoop_length env 8 true [] words none (some pad) string hloop
      cases h
      simp only [length_inet6Bytes, length_append, length_take, length_replicate,
        length_drop, length_nil] at this ⊢
      omega
  · split_ifs at h with hlen
    cases h
    rw [length_inet6Bytes, hlen]

theorem sockAton_length {env : SocketEnv} {string : Bytes} {sa : SockAddr}
    (h : sockAton env string = some sa) :
    (sa.family = .inet → sa.address.length = 4) ∧ (sa.family = .inet6 → sa.address.length = 16) := by
  obtain ⟨family, -, hfamily⟩ := exists_of_findSome?_eq_some h
  obtain ⟨address, haddress, rfl⟩ := Option.map_eq_some_iff.1 hfamily
  cases family with
  | inet => exact ⟨fun _ => inetAtonLoop_length env 3 string address haddress, nofun⟩
  | inet6 =>
    refine ⟨nofun, fun _ => ?_⟩
    simp only [sockaddrAton, ipv6SockAton] at haddress
    split_ifs at haddress
    split at haddress
    · cases haddress
    · next found hfound =>
        have hsame : found = address := by
          split at haddress
          · split_ifs at haddress
            exact Option.some.inj haddress
          · exact Option.some.inj haddress
        rw [← hsame]
        exact inet6Aton_length env _ found hfound

/-! ## IPv6 addresses as text

An address is its eight words in host order. -/

/-- What `inet6_ntoa` keeps while it formats an address; a pointer is an offset in `buf`. -/
structure Inet6Ntoa where
  out : Bytes := []
  longestStart : Option ℕ := none
  start : Option ℕ := none
  longestLen : ℕ := 1
  len : ℕ := 0

/-- Format a word, keeping track of longest run of zeros.
[net/ipv6.c:907-920] -/
def Inet6Ntoa.word (state : Inet6Ntoa) (value : UInt16) : Inet6Ntoa :=
  let state : Inet6Ntoa :=
    if value = 0 then
      let start := if state.len = 0 then some state.out.length else state.start
      let len := state.len + 1
      if len > state.longestLen then
        { state with start, len, longestStart := start, longestLen := len }
      else { state with start, len }
    else { state with len := 0 }
  { state with out := state.out ++ 0x3a :: Vsprintf.formatHex value.toNat 0 LCASE }

/-- Convert IPv6 address to standard notation.
[net/ipv6.c:894-931] -/
def inet6Ntoa (address : Vector UInt16 8) : Bytes :=
  let state := address.toList.foldl Inet6Ntoa.word {}
  match state.longestStart with
  | none => state.out.tail
  | some start =>
    -- abbreviate longest run of zeros
    let rest := state.out.drop (start + 2 * state.longestLen)
    let buf := state.out.take (start + 1) ++ 0x3a :: rest.tail
    if start = 0 then buf else buf.tail

end Ipxe.Model
