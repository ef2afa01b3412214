import Ipxe.Analysis.Asn1Objects
import Ipxe.Interface.TimeObject

/-!
# Seconds since the Epoch

`mktime` counts the leap years since 1900 by divisions that round towards zero, so before 1900
some years come out wrong (`YearCounted`).
-/

namespace Ipxe.Analysis

open Library Model Interface List

theorem cInt_of_bounds {value : ℤ} (hlow : -2 ^ 31 ≤ value) (hhigh : value < 2 ^ 31) :
    cInt value = value := by
  rw [cInt, Int.bmod_def]
  split_ifs <;> omega

theorem tdiv_of_neg {a b : ℤ} (ha : a < 0) : a.tdiv b = -((-a) / b) := by
  rw [← Int.tdiv_eq_ediv_of_nonneg (by omega), Int.neg_tdiv, neg_neg]

theorem isLeapYear_eq (year : ℕ) :
    isLeapYear (year - 1900) = decide (LeapYear year ∧ ¬ (year < 1900 ∧ year % 400 = 0)) := by
  rw [Bool.eq_iff_iff, decide_eq_true_iff, LeapYear, isLeapYear]
  rcases lt_or_ge year 1900 with hearly | hlate
  · have hneg : ∀ b : ℤ, ((year : ℤ) - 1900).tmod b = -((1900 - year) % b) := by
      intro b
      rw [show (year : ℤ) - 1900 = -(1900 - year) by ring, Int.neg_tmod,
        Int.tmod_eq_emod_of_nonneg (by omega)]
    simp only [hneg]
    split_ifs with h₁ h₂
    · omega
    · simp only [false_iff]
      omega
    · simp only [decide_eq_true_eq]
      omega
  · have hnonneg : ∀ b : ℤ, ((year : ℤ) - 1900).tmod b = (year - 1900) % b := fun b =>
      Int.tmod_eq_emod_of_nonneg (by omega)
    simp only [hnonneg]
    split_ifs with h₁ h₂
    · simp only [true_iff]
      omega
    · simp only [false_iff]
      omega
    · simp only [decide_eq_true_eq]
      omega

/-- By how many days a year is counted wrong. -/
def yearError (year : ℕ) : ℤ :=
  if 1900 ≤ year then 0
  else if 1601 ≤ year then if year % 4 = 1 ∧ year % 100 ≠ 1 then -1 else 0
  else if year % 4 = 1 ∧ (year % 100 ≠ 1 ∨ year % 400 = 1) then 0 else 1

theorem leapYearsToEnd_eq {year : ℕ} (hyear : year < 2 ^ 25) :
    leapYearsToEnd (cInt ((year : ℤ) - 1900 - 1)) =
      (daysToYear year : ℤ) - 365 * year - 461 + yearError year := by
  have hdays : (daysToYear year : ℤ) - 365 * year =
      ((year + 3) / 4 - (year + 99) / 100 + (year + 399) / 400 : ℤ) := by
    rw [daysToYear_eq]
    omega
  rw [hdays, cInt_of_bounds (by omega) (by omega), leapYearsToEnd,
    cInt_of_bounds (show -2 ^ 31 ≤ (year : ℤ) - 1900 - 1 + 300 by omega) (by omega), yearError]
  rcases lt_or_ge year 1900 with hearly | hlate
  · -- a quotient that is rounded up differs from one that is rounded down unless it is exact
    have hfour : (year + 3 : ℤ) / 4 =
        476 - -(year - 1900 - 1 : ℤ) / 4 - if year % 4 = 1 then 0 else 1 := by
      split_ifs <;> omega
    have hcentury : (year + 99 : ℤ) / 100 =
        20 - -(year - 1900 - 1 : ℤ) / 100 - if year % 100 = 1 then 0 else 1 := by
      split_ifs <;> omega
    rw [tdiv_of_neg (by omega), tdiv_of_neg (by omega), hfour, hcentury]
    rcases lt_or_ge year 1601 with hfirst | hsecond
    · have hcenturies : (year + 399 : ℤ) / 400 =
          5 - -(year - 1900 - 1 + 300 : ℤ) / 400 - if year % 400 = 1 then 0 else 1 := by
        split_ifs <;> omega
      rw [tdiv_of_neg (by omega), if_neg (show ¬ 1601 ≤ year by omega), hcenturies,
        cInt_of_bounds (by omega) (by omega)]
      clear hfour hcentury hcenturies hdays
      generalize -(year - 1900 - 1 : ℤ) / 4 = q₄, -(year - 1900 - 1 : ℤ) / 100 = q₁,
        -(year - 1900 - 1 + 300 : ℤ) / 400 = q
      split_ifs <;> omega
    · have hcenturies : (year + 399 : ℤ) / 400 = 5 := by omega
      have hzero : (year - 1900 - 1 + 300 : ℤ) / 400 = 0 := by omega
      rw [Int.tdiv_eq_ediv_of_nonneg (by omega), hcenturies, hzero,
        cInt_of_bounds (by omega) (by omega)]
      clear hfour hcentury hcenturies hdays hzero
      split_ifs <;> omega
  · rw [if_pos hlate]
    rcases lt_or_ge 1900 year with hnext | hfirst
    · have hfour : (year + 3 : ℤ) / 4 = (year - 1900 - 1 : ℤ) / 4 + 476 := by omega
      have hcentury : (year + 99 : ℤ) / 100 = (year - 1900 - 1 : ℤ) / 100 + 20 := by omega
      have hcenturies : (year + 399 : ℤ) / 400 = (year - 1900 - 1 + 300 : ℤ) / 400 + 5 := by omega
      rw [Int.tdiv_eq_ediv_of_nonneg (by omega), Int.tdiv_eq_ediv_of_nonneg (by omega),
        Int.tdiv_eq_ediv_of_nonneg (by omega), cInt_of_bounds (by omega) (by omega), hfour,
        hcentury, hcenturies]
      ring
    · obtain rfl : year = 1900 := by omega
      decide

/-! ## `mktime` -/

section

variable {time : CalendarTime} (hvalid : time.Valid) (memory : MonthMemory)

include hvalid

theorem daysToMonthStart_eq : daysToMonthStart memory (time.month - 1) +
    (if 3 ≤ time.month ∧ LeapYear time.year then 1 else 0) = daysToMonth time.year time.month := by
  obtain ⟨hlow, hhigh⟩ := hvalid.month
  rw [daysToMonth_eq time.year hvalid.month, daysToMonthStart, monthEntry]
  generalize time.month = month at *
  interval_cases month <;> simp

theorem day_le : time.day ≤ 31 := by
  obtain ⟨hlow, hhigh⟩ := hvalid.month
  refine hvalid.day.2.trans ?_
  generalize time.month = month at *
  interval_cases month <;> simp only [monthLength] <;> split_ifs <;> decide

/-- The day of the year is that of the calendar, but for years that are not taken for leap
years. -/
theorem mktime_yday : (mktime memory (tmOf time)).2.tmYday =
    time.yearDay - if 3 ≤ time.month ∧ time.year < 1900 ∧ time.year % 400 = 0 then 1 else 0 := by
  have hmonth := hvalid.month
  have hday := day_le hvalid
  have hpositive := hvalid.day.1
  have hstart := daysToMonthStart_eq hvalid memory
  have hle := daysToMonth_le time.year hmonth
  have hleap : isLeapYear (tmOf time).tmYear = _ := isLeapYear_eq time.year
  have hyday : (mktime memory (tmOf time)).2.tmYday =
      cInt (time.day - 1 + daysToMonthStart memory (time.month - 1) +
        if 2 ≤ (time.month - 1 : ℤ) ∧ isLeapYear (tmOf time).tmYear then 1 else 0) := rfl
  rw [hyday, hleap]
  simp only [decide_eq_true_eq]
  rw [CalendarTime.yearDay]
  have hcases : (if 2 ≤ (time.month - 1 : ℤ) ∧ LeapYear time.year ∧
        ¬ (time.year < 1900 ∧ time.year % 400 = 0) then (1 : ℤ) else 0) =
      (if 3 ≤ time.month ∧ LeapYear time.year then 1 else 0) -
        if 3 ≤ time.month ∧ time.year < 1900 ∧ time.year % 400 = 0 then 1 else 0 := by
    unfold LeapYear
    split_ifs <;> omega
  rw [cInt_of_bounds]
  · omega
  · split_ifs <;> omega
  · split_ifs <;> omega

/-- By how many days a month is counted wrong. -/
def dayError (year month : ℕ) : ℤ :=
  yearError year - if 3 ≤ month ∧ year < 1900 ∧ year % 400 = 0 then 1 else 0

omit hvalid in
theorem dayError_eq_zero (year month : ℕ) : dayError year month = 0 ↔ YearCounted year month := by
  rw [dayError, yearError, YearCounted]
  split_ifs <;> omega

theorem mktime_seconds (hyear : time.year < 2 ^ 24) :
    (mktime memory (tmOf time)).1 =
      cInt (time.epochDay + dayError time.year time.month) * 86400 +
        (time.hour * 3600 + time.minute * 60 + time.second : ℕ) := by
  have hseconds : (mktime memory (tmOf time)).1 =
      cInt ((mktime memory (tmOf time)).2.tmYday + 365 * (time.year - 1900) - 25567 +
          leapYearsToEnd (cInt (time.year - 1900 - 1))) * 86400 +
        cInt ((time.hour * 60 + time.minute) * 60 + time.second) := rfl
  have hhour := hvalid.hour
  have hminute := hvalid.minute
  have hsecond := hvalid.second
  rw [hseconds, mktime_yday hvalid memory, leapYearsToEnd_eq (by omega),
    @cInt_of_bounds ((time.hour * 60 + time.minute) * 60 + time.second) (by omega) (by omega),
    CalendarTime.epochDay_eq, dayError]
  congr 3
  · push_cast
    ring
  · push_cast
    ring

omit hvalid in
theorem cInt_tmod_seven {total : ℤ} (hlow : 0 ≤ total) (hhigh : total < 2 ^ 31) :
    (cInt total).tmod 7 = total % 7 := by
  rw [cInt_of_bounds (by omega) hhigh, Int.tmod_eq_emod_of_nonneg hlow]

/-- **The day of the week** is that of the calendar from 1900 on. -/
theorem mktime_wday (hyear : time.year < 2 ^ 24) (hlate : 1900 ≤ time.year) :
    (mktime memory (tmOf time)).2.tmWday = time.weekDay := by
  have hmonth := hvalid.month
  have hday := day_le hvalid
  have hpositive := hvalid.day.1
  have hwday : (mktime memory (tmOf time)).2.tmWday =
      dayOfWeek memory (time.year - 1900) (time.month - 1) time.day := rfl
  have hthis := @leapYearsToEnd_eq time.year (by omega)
  have hnext := @leapYearsToEnd_eq (time.year + 1) (by omega)
  have hlen : daysToYear (time.year + 1) = daysToYear time.year + yearLength time.year :=
    Finset.sum_range_succ _ _
  have hbound := daysToYear_eq time.year
  rw [yearError, if_pos (by omega)] at hthis hnext
  rw [show ((time.year + 1 : ℕ) : ℤ) - 1900 - 1 = time.year - 1900 by push_cast; ring,
    cInt_of_bounds (by omega) (by omega), hlen, yearLength] at hnext
  rw [cInt_of_bounds (by omega) (by omega)] at hthis
  rw [hwday, dayOfWeek, monthEntry,
    if_pos (show 0 ≤ (time.month - 1 : ℤ) ∧ (time.month - 1 : ℤ) < 12 by omega),
    cInt_of_bounds (show -2 ^ 31 ≤ (time.year - 1900 - 1 : ℤ) by omega) (by omega),
    CalendarTime.weekDay, CalendarTime.epochDay_eq, CalendarTime.yearDay, daysToMonth_eq _ hmonth]
  obtain ⟨hlow, hhigh⟩ := hmonth
  clear hwday hlen
  generalize time.month = month at *
  generalize time.day = day at *
  rcases lt_or_ge month 3 with hwinter | hrest
  · -- January and February belong to the year before
    rw [if_pos (show (month - 1 : ℤ) < 2 by omega), hthis,
      if_neg (show ¬ (3 ≤ month ∧ LeapYear time.year) by omega)]
    generalize daysToYear time.year = days at *
    interval_cases month <;> simp <;> rw [cInt_tmod_seven (by omega) (by omega)] <;> omega
  · rw [if_neg (show ¬ (month - 1 : ℤ) < 2 by omega), hnext]
    generalize daysToYear time.year = days at *
    by_cases hleap : LeapYear time.year
    · rw [if_pos hleap, if_pos ⟨hrest, hleap⟩]
      interval_cases month <;> simp <;> rw [cInt_tmod_seven (by omega) (by omega)] <;> omega
    · rw [if_neg hleap, if_neg fun h => hleap h.2]
      interval_cases month <;> simp <;> rw [cInt_tmod_seven (by omega) (by omega)] <;> omega

omit hvalid in
theorem cInt_lt (value : ℤ) : cInt value < 2 ^ 31 := by
  rw [cInt, Int.bmod_def]
  split_ifs <;> omega

/-- **`mktime` from 1900 on**: it is right exactly for the days that fit an `int`. -/
theorem mktime_correct (hlate : 1900 ≤ time.year) :
    ((mktime memory (tmOf time)).1 = time.epochSeconds ∧
        (mktime memory (tmOf time)).2.tmWday = time.weekDay ∧
        (mktime memory (tmOf time)).2.tmYday = time.yearDay) ↔
      time.epochDay < 2 ^ 31 := by
  constructor
  · rintro ⟨hseconds, -, -⟩
    have hmktime : ∃ days, (mktime memory (tmOf time)).1 = cInt days * 86400 +
        cInt ((time.hour * 60 + time.minute) * 60 + time.second) := ⟨_, rfl⟩
    obtain ⟨days, hdays⟩ := hmktime
    have hfit := cInt_lt days
    have hhour := hvalid.hour
    have hminute := hvalid.minute
    have hsecond := hvalid.second
    rw [hdays, @cInt_of_bounds ((time.hour * 60 + time.minute) * 60 + time.second) (by omega)
      (by omega), CalendarTime.epochSeconds] at hseconds
    omega
  · intro hnear
    have hyear : time.year < 2 ^ 24 := by
      rw [CalendarTime.epochDay_eq, daysToYear_eq] at hnear
      omega
    have hcounted : dayError time.year time.month = 0 := (dayError_eq_zero _ _).2 (.inl hlate)
    have hfrom : -2 ^ 31 ≤ time.epochDay := by
      rw [CalendarTime.epochDay_eq]
      omega
    refine ⟨?_, mktime_wday hvalid memory hyear hlate, ?_⟩
    · rw [mktime_seconds hvalid memory hyear, hcounted, add_zero, cInt_of_bounds hfrom hnear,
        CalendarTime.epochSeconds]
    · rw [mktime_yday hvalid memory, if_neg (by omega), sub_zero]

/-- **`mktime` before the year 10000**: the seconds are right exactly for the years that are
counted right. -/
theorem mktime_seconds_iff (hyear : time.year < 10000) :
    (mktime memory (tmOf time)).1 = time.epochSeconds ↔ YearCounted time.year time.month := by
  have hday := day_le hvalid
  have hmonth := daysToMonth_le time.year hvalid.month
  have herror : -2 ≤ dayError time.year time.month ∧ dayError time.year time.month ≤ 1 := by
    rw [dayError, yearError]
    split_ifs <;> omega
  have hbounds : -2 ^ 30 ≤ time.epochDay ∧ time.epochDay < 2 ^ 30 := by
    rw [CalendarTime.epochDay_eq, CalendarTime.yearDay, daysToYear_eq]
    omega
  rw [mktime_seconds hvalid memory (by omega), cInt_of_bounds (by omega) (by omega),
    CalendarTime.epochSeconds, ← dayError_eq_zero]
  omega

end

/-! ## Times as objects -/

theorem asn1TimePairs_twoDigits {n : ℕ} (hn : n < 100) (missing : ℕ) (data : Bytes) :
    asn1TimePairs (missing + 1) (twoDigits n ++ data) =
      (asn1TimePairs missing data).map fun result => ((n : ℤ) :: result.1, result.2) := by
  have hdigit : ∀ d < 10, isdigit (UInt8.ofNat (0x30 + d)) = true ∧
      ((UInt8.ofNat (0x30 + d)).toNat : ℤ) - 0x30 = d := by
    decide
  obtain ⟨htens, htens'⟩ := hdigit (n / 10) (by omega)
  obtain ⟨hunits, hunits'⟩ := hdigit (n % 10) (by omega)
  rw [twoDigits, cons_append, cons_append, nil_append, asn1TimePairs, htens, hunits,
    htens', hunits']
  have hvalue : (10 * ((n / 10 : ℕ) : ℤ) + (n % 10 : ℕ)) = n := by omega
  rw [hvalue]
  cases asn1TimePairs missing data <;> rfl

theorem asn1TimePairs_end (seconds : Bool) {second : ℕ} (hsecond : second < 100) :
    asn1TimePairs 1 ((if seconds then twoDigits second else []) ++ [0x5a]) =
      .ok (if seconds then [(second : ℤ)] else [], [0x5a]) := by
  cases seconds with
  | false => rfl
  | true =>
    rw [if_pos rfl, asn1TimePairs_twoDigits hsecond]
    rfl

theorem length_timeText_le (time : CalendarTime) (century seconds : Bool) :
    (timeText time century seconds).length ≤ 15 := by
  cases century <;> cases seconds <;> simp [timeText, twoDigits]

theorem asn1Enter_of_tlvObject {cursor content rest : Asn1Cursor} {tag : UInt8}
    (hobject : tlvObject tlvLength cursor = some (tag, content, rest))
    (hshort : content.length < 2 ^ 31) : asn1Enter cursor (some tag) = (.ok (), content) := by
  obtain ⟨octets, body, hheader, hle, rfl, rfl⟩ := tlvObject_eq_some hobject
  rw [length_take_of_le hle] at hshort
  rw [asn1Enter, asn1Start_of_tlvHeader hheader (.inr rfl), asn1Len_of_lt octets (by omega),
    if_neg (by omega), if_pos hshort]

theorem asn1TimePairs_timeText {time : CalendarTime} {century : Bool}
    (hyear : century = true → time.year < 10000)
    (hfields : time.month < 100 ∧ time.day < 100 ∧ time.hour < 100 ∧ time.minute < 100 ∧
      time.second < 100) (seconds : Bool) :
    asn1TimePairs (if century then 7 else 6) (timeText time century seconds) =
      .ok ((if century then [((time.year / 100 : ℕ) : ℤ)] else []) ++
        [((time.year % 100 : ℕ) : ℤ), time.month, time.day, time.hour, time.minute] ++
        if seconds then [(time.second : ℤ)] else [], [0x5a]) := by
  obtain ⟨hmonth, hday, hhour, hminute, hsecond⟩ := hfields
  have hrest : asn1TimePairs 6 (timeText time false seconds) =
      .ok ([((time.year % 100 : ℕ) : ℤ), time.month, time.day, time.hour, time.minute] ++
        if seconds then [(time.second : ℤ)] else [], [0x5a]) := by
    rw [timeText, if_neg Bool.false_ne_true, nil_append,
      asn1TimePairs_twoDigits (Nat.mod_lt _ (by norm_num)), asn1TimePairs_twoDigits hmonth,
      asn1TimePairs_twoDigits hday, asn1TimePairs_twoDigits hhour, asn1TimePairs_twoDigits hminute,
      asn1TimePairs_end seconds hsecond]
    rfl
  cases century with
  | false => exact hrest
  | true =>
    have htext : timeText time true seconds =
        twoDigits (time.year / 100) ++ timeText time false seconds := rfl
    rw [if_pos rfl, htext, asn1TimePairs_twoDigits (by have := hyear rfl; omega), hrest]
    rfl

theorem asn1GeneralizedTime_of_denotes {memory : MonthMemory} {cursor content rest : Asn1Cursor}
    {tag : UInt8} {t : ℤ} {time : CalendarTime}
    (hobject : tlvObject tlvLength cursor = some (tag, content, rest))
    (hdenotes : Denotes tag content time) (hok : asn1GeneralizedTime memory cursor = .ok t) :
    t = (mktime memory (tmOf time)).1 := by
  obtain ⟨octets, body, hheader, -, -, -⟩ := tlvObject_eq_some hobject
  obtain ⟨seconds, htext, hseconds⟩ := hdenotes.text
  have hshort : content.length < 2 ^ 31 := by
    have := length_timeText_le time (tag = asn1TagGeneralizedTime) seconds
    rw [htext]
    omega
  have henter := asn1Enter_of_tlvObject hobject hshort
  have hpairs := @asn1TimePairs_timeText time (tag = asn1TagGeneralizedTime)
    (fun _ => by obtain ⟨-, hyear⟩ | ⟨-, -, hyear⟩ := hdenotes.year <;> omega) hdenotes.fields seconds
  rw [← htext] at hpairs
  have hfields : asn1TimeFields (((time.year / 100 : ℕ) : ℤ) ::
      ([((time.year % 100 : ℕ) : ℤ), time.month, time.day, time.hour, time.minute] ++
        if seconds then [(time.second : ℤ)] else [])) = tmOf time := by
    have hyear : ((time.year / 100 : ℕ) - 19 : ℤ) * 100 + (time.year % 100 : ℕ) = time.year - 1900 := by
      omega
    cases seconds with
    | false => simp [asn1TimeFields, tmOf, ← hyear, hseconds rfl]
    | true => simp [asn1TimeFields, tmOf, ← hyear]
  rw [asn1GeneralizedTime, asn1Type_of_tlvHeader hheader] at hok
  simp only [henter, hpairs] at hok
  rcases hdenotes.year with ⟨rfl, hyear⟩ | ⟨rfl, hfrom, hto⟩
  · rw [← hfields]
    exact (Except.ok.inj hok).symm
  · have hcentury : (if ((time.year % 100 : ℕ) : ℤ) ≥ 50 then 19 else 20 : ℤ) =
        (time.year / 100 : ℕ) := by
      split_ifs <;> omega
    rw [← hfields, ← hcentury]
    exact (Except.ok.inj hok).symm

/-- **Time conversion.**  A time object that is accepted is converted to the time it denotes
exactly if there is such a time and its year is counted right; and `mktime` is right for the
times from 1900 on exactly as long as their days fit an `int`. -/
theorem time_conversion (memory : MonthMemory) :
    (∀ (cursor content rest : Asn1Cursor) (tag : UInt8) (t : ℤ),
      tlvObject tlvLength cursor = some (tag, content, rest) →
      asn1GeneralizedTime memory cursor = .ok t →
      ((∃ time, Denotes tag content time ∧ time.Valid ∧ t = time.epochSeconds) ↔
        ∃ time, Denotes tag content time ∧ time.Valid ∧ YearCounted time.year time.month)) ∧
    ∀ time : CalendarTime, time.Valid → 1900 ≤ time.year →
      (((mktime memory (tmOf time)).1 = time.epochSeconds ∧
          (mktime memory (tmOf time)).2.tmWday = time.weekDay ∧
          (mktime memory (tmOf time)).2.tmYday = time.yearDay) ↔
        time.epochDay < 2 ^ 31) := by
  refine ⟨fun cursor content rest tag t hobject hok => ?_, fun time hvalid hlate =>
    mktime_correct hvalid memory hlate⟩
  refine exists_congr fun time => and_congr_right fun hdenotes => and_congr_right fun hvalid => ?_
  have hyear : time.year < 10000 := by
    obtain ⟨-, hyear⟩ | ⟨-, -, hyear⟩ := hdenotes.year <;> omega
  rw [asn1GeneralizedTime_of_denotes hobject hdenotes hok]
  exact mktime_seconds_iff hvalid memory hyear

def generalizedTime (time : CalendarTime) : Asn1Cursor :=
  asn1TagGeneralizedTime :: 15 :: timeText time true true

def zeroedMonths : MonthMemory := ⟨fun _ => 0, fun _ => 0⟩

/-- The beginning of the year 2026. -/
theorem time_conversion_new_year :
    (asn1GeneralizedTime zeroedMonths (generalizedTime ⟨2026, 1, 1, 0, 0, 0⟩) = .ok 1767225600 ∧
      ∃ time, Denotes asn1TagGeneralizedTime (timeText ⟨2026, 1, 1, 0, 0, 0⟩ true true) time ∧
        time.Valid ∧ 1767225600 = time.epochSeconds) ∧
    ((mktime zeroedMonths (tmOf ⟨2026, 1, 1, 0, 0, 0⟩)).1 =
        CalendarTime.epochSeconds ⟨2026, 1, 1, 0, 0, 0⟩ ∧
      (mktime zeroedMonths (tmOf ⟨2026, 1, 1, 0, 0, 0⟩)).2.tmWday =
        CalendarTime.weekDay ⟨2026, 1, 1, 0, 0, 0⟩ ∧
      (mktime zeroedMonths (tmOf ⟨2026, 1, 1, 0, 0, 0⟩)).2.tmYday =
        CalendarTime.yearDay ⟨2026, 1, 1, 0, 0, 0⟩) :=
  have hvalid : CalendarTime.Valid ⟨2026, 1, 1, 0, 0, 0⟩ :=
    ⟨by decide, by decide, by decide, by decide, by decide⟩
  have hdenotes : Denotes asn1TagGeneralizedTime (timeText ⟨2026, 1, 1, 0, 0, 0⟩ true true)
      ⟨2026, 1, 1, 0, 0, 0⟩ :=
    ⟨⟨true, by decide, by decide⟩, Or.inl ⟨rfl, by decide⟩, by decide⟩
  ⟨⟨by decide, ((time_conversion zeroedMonths).1 (generalizedTime ⟨2026, 1, 1, 0, 0, 0⟩) _ [] _ _
      (by decide) (by decide)).mpr ⟨_, hdenotes, hvalid, Or.inl (by decide)⟩⟩,
    ((time_conversion zeroedMonths).2 _ hvalid (by decide)).mpr (by
      rw [CalendarTime.epochDay_eq, daysToYear_eq]
      decide)⟩

/-- A month 13 is accepted; a day of the year 1897 comes out as the day before; and the first
day that does not fit comes out as one long before the Epoch. -/
theorem time_conversion_wrong :
    (asn1GeneralizedTime zeroedMonths (generalizedTime ⟨2026, 13, 1, 0, 0, 0⟩) = .ok 1767225600 ∧
      Denotes asn1TagGeneralizedTime (timeText ⟨2026, 13, 1, 0, 0, 0⟩ true true)
        ⟨2026, 13, 1, 0, 0, 0⟩) ∧
    (asn1GeneralizedTime zeroedMonths (generalizedTime ⟨1897, 3, 1, 0, 0, 0⟩) = .ok (-2298585600) ∧
      Denotes asn1TagGeneralizedTime (timeText ⟨1897, 3, 1, 0, 0, 0⟩ true true)
        ⟨1897, 3, 1, 0, 0, 0⟩ ∧
      CalendarTime.epochSeconds ⟨1897, 3, 1, 0, 0, 0⟩ = -2298585600 + 86400) ∧
    ((mktime zeroedMonths (tmOf ⟨5881580, 7, 12, 0, 0, 0⟩)).1 = -2 ^ 31 * 86400 ∧
      CalendarTime.epochSeconds ⟨5881580, 7, 12, 0, 0, 0⟩ = 2 ^ 31 * 86400) := by
  have hdenotes : ∀ time : CalendarTime, time.year < 10000 →
      (time.month < 100 ∧ time.day < 100 ∧ time.hour < 100 ∧ time.minute < 100 ∧
        time.second < 100) →
      Denotes asn1TagGeneralizedTime (timeText time true true) time := fun time hyear hfields =>
    ⟨⟨true, rfl, Bool.noConfusion⟩, Or.inl ⟨rfl, hyear⟩, hfields⟩
  refine ⟨⟨by decide, hdenotes _ (by decide) (by decide)⟩,
    ⟨by decide, hdenotes _ (by decide) (by decide), ?_⟩, ⟨by decide, ?_⟩⟩
  · rw [CalendarTime.epochSeconds, CalendarTime.epochDay_eq, daysToYear_eq]
    decide
  · rw [CalendarTime.epochSeconds, CalendarTime.epochDay_eq, daysToYear_eq]
    decide

end Ipxe.Analysis
