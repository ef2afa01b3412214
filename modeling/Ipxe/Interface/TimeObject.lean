import Ipxe.Library.Calendar
import Ipxe.Model.Asn1

/-!
# Times as objects

What the content of a UTCTime or a GeneralizedTime denotes: two digits for each field, and a
`Z`.  A UTCTime has a year without a century, between 1950 and 2049.  The seconds may be left
out.
-/

namespace Ipxe.Interface

open Library Model

def twoDigits (n : ℕ) : Bytes := [UInt8.ofNat (0x30 + n / 10), UInt8.ofNat (0x30 + n % 10)]

/-- The text of a time, with or without a century and with or without seconds. -/
def timeText (time : CalendarTime) (century seconds : Bool) : Bytes :=
  (if century then twoDigits (time.year / 100) else []) ++
    (twoDigits (time.year % 100) ++ (twoDigits time.month ++ (twoDigits time.day ++
      (twoDigits time.hour ++ (twoDigits time.minute ++
        ((if seconds then twoDigits time.second else []) ++ [0x5a]))))))

/-- The fields of an object are these, whether or not there is such a date. -/
structure Denotes (tag : UInt8) (content : Bytes) (time : CalendarTime) : Prop where
  text : ∃ seconds, content = timeText time (tag = asn1TagGeneralizedTime) seconds ∧
    (seconds = false → time.second = 0)
  year : tag = asn1TagGeneralizedTime ∧ time.year < 10000 ∨
    tag = asn1TagUtcTime ∧ 1950 ≤ time.year ∧ time.year ≤ 2049
  fields : time.month < 100 ∧ time.day < 100 ∧ time.hour < 100 ∧ time.minute < 100 ∧
    time.second < 100

def tmOf (time : CalendarTime) : Tm where
  tmSec := time.second
  tmMin := time.minute
  tmHour := time.hour
  tmMday := time.day
  tmMon := time.month - 1
  tmYear := time.year - 1900

/-- Years that are counted right: all from 1900 on, and some before. -/
def YearCounted (year month : ℕ) : Prop :=
  1900 ≤ year ∨
    1601 ≤ year ∧ (year % 4 ≠ 1 ∨ year % 100 = 1) ∨
    year ≤ 1600 ∧ (year % 4 = 1 ∧ (year % 100 ≠ 1 ∨ year % 400 = 1) ∨ year % 400 = 0 ∧ 3 ≤ month)

end Ipxe.Interface
