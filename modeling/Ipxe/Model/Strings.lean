import Ipxe.Library.Bytes
import Mathlib.Tactic

/-!
# Strings

`core/string.c`.  A C string is the list of its characters, without the NUL behind them and without
any NUL among them.
-/

namespace Ipxe.Model

/-- A NUL-terminated string. -/
structure CString where
  chars : Bytes
  noNul : 0 ∉ chars

variable (character : UInt8)

/-- See include/ctype.h:18-21 -/
def isdigit : Bool := 0x30 ≤ character ∧ character ≤ 0x39

def islower : Bool := 0x61 ≤ character ∧ character ≤ 0x7a

/-- See include/ctype.h:109-113 -/
def toupper : UInt8 := if islower character then character - 0x20 else character

/-- See core/ctype.c:41-54 -/
def isspace : Bool :=
  character = 0x20 ∨ character = 0x0c ∨ character = 0x0a ∨ character = 0x0d ∨
    character = 0x09 ∨ character = 0x0b

/-- Whether `strncasecmp` finds no difference in `max` characters of a string and of
the bytes behind a pointer.  Characters behind the end of either are zero.
[221-234] -/
def strncasecmp : Bytes → Bytes → ℕ → Bool
  | _, _, 0 => true
  | first, second, max + 1 =>
    if toupper (first.headD 0) ≠ toupper (second.headD 0) then false
    else if first.headD 0 = 0 then true
    else strncasecmp first.tail second.tail max

/-- The string from the first occurrence of a character on.
[271-280] -/
def strchr (src : Bytes) (character : UInt8) : Option Bytes :=
  match src with
  | [] => none
  | first :: rest => if first = character then some (first :: rest) else strchr rest character

theorem strchr_iff {src rest : Bytes} {character : UInt8} :
    strchr src character = some rest ↔
      ∃ before after, src = before ++ character :: after ∧ character ∉ before ∧
        rest = character :: after := by
  induction src with
  | nil => simp [strchr]
  | cons first src ih =>
    rw [strchr]
    by_cases hfirst : first = character
    · rw [if_pos hfirst]
      constructor
      · intro h
        exact ⟨[], src, by simp [hfirst], by simp, by rw [← Option.some.inj h, hfirst]⟩
      · rintro ⟨before, after, hsrc, hbefore, rfl⟩
        cases before with
        | nil => rw [hsrc, List.nil_append]
        | cons head before => exact absurd (by simp_all) hbefore
    · rw [if_neg hfirst, ih]
      constructor
      · rintro ⟨before, after, rfl, hbefore, rfl⟩
        exact ⟨first :: before, after, rfl, by simp [hbefore, Ne.symm hfirst], rfl⟩
      · rintro ⟨before, after, hsrc, hbefore, rfl⟩
        cases before with
        | nil => exact absurd (List.cons.inj hsrc).1 hfirst
        | cons head before =>
          exact ⟨before, after, (List.cons.inj hsrc).2, fun h => hbefore (List.mem_cons_of_mem head h), rfl⟩

/-- The value of a digit, computed as an `unsigned int`.
[413-422] -/
def digitValue : ℕ :=
  let code := character.toNat
  if code ≥ 0x61 then code - 87
  else if code ≥ 0x41 then code - 55
  else if code ≤ 0x39 then (code + 2 ^ 32 - 48) % 2 ^ 32
  else code

/-- The base prefix of a number: the base and the string behind it.
[448-457] -/
def strtoulBase (string : Bytes) (base : ℕ) : ℕ × Bytes :=
  if base ≠ 0 then (base, string)
  else
    match string with
    | 0x30 :: next =>
      match next with
      | x :: rest => if x = 0x58 ∨ x = 0x78 then (16, rest) else (8, next)
      | [] => (8, next)
    | _ => (10, string)

/-- The loop over the digits, in an `unsigned long` of the given width. -/
def strtoulDigits (ulongBits base : ℕ) : ℕ → Bytes → ℕ × Bytes
  | value, [] => (value, [])
  | value, digit :: rest =>
    if digitValue digit ≥ base then (value, digit :: rest)
    else strtoulDigits ulongBits base ((value * base + digitValue digit) % 2 ^ ulongBits) rest

/-- Convert string to numeric value; the rest of the string is returned with it.
[433-496] -/
def strtoul (ulongBits : ℕ) (string : Bytes) (base : ℕ) : ℕ × Bytes :=
  let string := string.dropWhile isspace
  let negate : Bool := string.head? = some 0x2d
  let string := if negate ∨ string.head? = some 0x2b then string.tail else string
  let based := strtoulBase string base
  let number := strtoulDigits ulongBits based.1 0 based.2
  if negate then ((2 ^ ulongBits - number.1) % 2 ^ ulongBits, number.2) else number

example : strtoul 64 [0x30, 0x78, 0x66, 0x46, 0x2e] 0 = (255, [0x2e]) := by decide

end Ipxe.Model
