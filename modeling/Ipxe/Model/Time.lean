import Mathlib.Tactic

/-!
# Date and time

`core/time.c`.  `mktime` and its helpers.  The two month tables are indexed without a range check;
what the memory around them holds is an argument of the model.  Numbers are `int`s, and arithmetic
on them goes round.
-/

namespace Ipxe.Model

/-- Broken-down time.
[include/time.h:15-34] -/
structure Tm where
  tmSec : ℤ
  tmMin : ℤ
  tmHour : ℤ
  tmMday : ℤ
  tmMon : ℤ
  tmYear : ℤ
  tmWday : ℤ := 0
  tmYday : ℤ := 0
  deriving DecidableEq, Repr

/-- The memory around the tables that are indexed by month. -/
structure MonthMemory where
  offset : ℤ → UInt8
  daysToMonthStart : ℤ → UInt16

/-- The value that an `int` is left with. -/
def cInt (value : ℤ) : ℤ := value.bmod (2 ^ 32)

/-- See 59-70 -/
def isLeapYear (tmYear : ℤ) : Bool :=
  if tmYear.tmod 400 = 100 then true
  else if tmYear.tmod 100 = 0 then false
  else tmYear.tmod 4 = 0

/-- See 78-86 -/
def leapYearsToEnd (tmYear : ℤ) : ℤ :=
  cInt (tmYear.tdiv 4 - tmYear.tdiv 100 + (cInt (tmYear + 300)).tdiv 400)

/-- An element of a month table, in range or not. -/
def monthEntry (table : List ℤ) (memory : ℤ → ℤ) (tmMon : ℤ) : ℤ :=
  if 0 ≤ tmMon ∧ tmMon < 12 then table.getD tmMon.toNat 0 else memory tmMon

/-- See 95-104 -/
def dayOfWeek (memory : MonthMemory) (tmYear tmMon tmMday : ℤ) : ℤ :=
  let offset := monthEntry [1, 4, 3, 6, 1, 4, 6, 2, 5, 0, 3, 5]
    (fun i => (memory.offset i).toNat) tmMon
  let pseudoYear := if tmMon < 2 then cInt (tmYear - 1) else tmYear
  (cInt (pseudoYear + leapYearsToEnd pseudoYear + offset + tmMday)).tmod 7

def daysToMonthStart (memory : MonthMemory) (tmMon : ℤ) : ℤ :=
  monthEntry [0, 31, 59, 90, 120, 151, 181, 212, 243, 273, 304, 334]
    (fun i => (memory.daysToMonthStart i).toNat) tmMon

/-- Calculate seconds since the Epoch; the day of the week and of the year are filled in.
[116-145] -/
def mktime (memory : MonthMemory) (tm : Tm) : ℤ × Tm :=
  let yday := cInt (tm.tmMday - 1 + daysToMonthStart memory tm.tmMon +
    (if 2 ≤ tm.tmMon ∧ isLeapYear tm.tmYear then 1 else 0))
  let wday := dayOfWeek memory tm.tmYear tm.tmMon tm.tmMday
  let daysSinceEpoch :=
    cInt (yday + 365 * tm.tmYear - 25567 + leapYearsToEnd (cInt (tm.tmYear - 1)))
  let secondsSinceDay := cInt ((tm.tmHour * 60 + tm.tmMin) * 60 + tm.tmSec)
  (daysSinceEpoch * 86400 + secondsSinceDay, { tm with tmYday := yday, tmWday := wday })

example (memory : MonthMemory) : (mktime memory ⟨0, 0, 0, 1, 0, 70, 0, 0⟩).1 = 0 := rfl

end Ipxe.Model
