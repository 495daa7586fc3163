import Fppnet.Datetime.Date

/-!
# UTC in `TimeZone`

`toUtcTime` and `fromUtcTime` of `src/base/datetime/TimeZone.cc`, which stand for `gmtime_r` and
`timegm`. `toUtcTime` divides with truncation and mends the result for times before 1970. Both
compute in `int`; `gmtime` and `timegm` are the same in integers.

`gmtime_spec` says what is computed, in terms of the calendar, and `utc_roundTrip` that the two
functions are inverse to each other, as long as nothing overflows.
-/

open Calendar Date MachineInt

namespace TimeZone

/-- `struct tm`. -/
structure Tm where
  sec : ℤ := 0
  min : ℤ := 0
  hour : ℤ := 0
  mday : ℤ := 0
  mon : ℤ := 0
  year : ℤ := 0
  wday : ℤ := 0
  yday : ℤ := 0
  isdst : Bool := false
  gmtoff : ℤ := 0
  zone : List UInt8 := []
  deriving DecidableEq

def kSecondsPerDay : ℤ := 24 * 60 * 60

/-- `"GMT"` -/
def gmt : List UInt8 := [71, 77, 84]

/-- `fillHMS` -/
def fillHMS (seconds : ℤ) (utc : Tm) : Tm :=
  let minutes := seconds / 60
  { utc with sec := seconds % 60, min := minutes % 60, hour := minutes / 60 }

/-- The first branch of `toUtcTime`, for a negative remainder. -/
def mended (seconds days : ℤ) : Option (ℤ × ℤ) :=
  if seconds < 0 then do
    return (← int (seconds + kSecondsPerDay), ← int (days - 1))
  else some (seconds, days)

/-- `toUtcTime` -/
def toUtcTime (secondsSinceEpoch : ℤ) (yday : Bool) : Option Tm := do
  let seconds := toInt (secondsSinceEpoch.tmod kSecondsPerDay)
  let days := toInt (secondsSinceEpoch.tdiv kSecondsPerDay)
  let (seconds, days) ← mended seconds days
  let date ← int (days + kJulianDayOf1970_01_01)
  let ymd ← getYearMonthDay date
  let year ← int (ymd.year - 1900)
  let mon ← int (ymd.month - 1)
  let wday ← weekDay date
  let utc := { fillHMS seconds { zone := gmt } with year, mon, mday := ymd.day, wday }
  if yday then do
    return { utc with yday := ← int (date - (← getJulianDayNumber ymd.year 1 1)) }
  else return utc

/-- `fromUtcTime` of a year, a month and so on. -/
def fromUtcFields (year month day hour minute seconds : ℤ) : Option ℤ := do
  let date ← getJulianDayNumber year month day
  let secondsInDay ← int ((← int ((← int (hour * 3600)) + (← int (minute * 60)))) + seconds)
  let days ← int (date - kJulianDayOf1970_01_01)
  return days * kSecondsPerDay + secondsInDay

/-- `fromUtcTime` -/
def fromUtcTime (utc : Tm) : Option ℤ := do
  fromUtcFields (← int (utc.year + 1900)) (← int (utc.mon + 1)) utc.mday utc.hour utc.min utc.sec

/-- `gmtime_r`: what `toUtcTime` computes, in integers. -/
def gmtime (secondsSinceEpoch : ℤ) : Tm :=
  let seconds := secondsSinceEpoch.tmod kSecondsPerDay
  let days := secondsSinceEpoch.tdiv kSecondsPerDay
  let (seconds, days) :=
    if seconds < 0 then (seconds + kSecondsPerDay, days - 1) else (seconds, days)
  let date := days + kJulianDayOf1970_01_01
  let ymd := yearMonthDay date
  { fillHMS seconds { zone := gmt } with
    year := ymd.year - 1900
    mon := ymd.month - 1
    mday := ymd.day
    wday := (date + 1).tmod 7
    yday := date - dayNumber ymd.year 1 1 }

/-- `timegm`: what `fromUtcTime` computes, in integers. -/
def timegm (utc : Tm) : ℤ :=
  (dayNumber (utc.year + 1900) (utc.mon + 1) utc.mday - kJulianDayOf1970_01_01) * kSecondsPerDay +
    (utc.hour * 3600 + utc.min * 60 + utc.sec)

/-! ### What they compute -/

/-- The fields name a day of the calendar and a time of it. -/
structure Names (tm : Tm) (d : Day) : Prop where
  year : tm.year + 1900 = d.year
  mon : tm.mon + 1 = d.month
  mday : tm.mday = d.day
  hour : 0 ≤ tm.hour ∧ tm.hour < 24
  min : 0 ≤ tm.min ∧ tm.min < 60
  sec : 0 ≤ tm.sec ∧ tm.sec < 60

/-- The second of the day. -/
def Tm.secondOfDay (tm : Tm) : ℤ := tm.hour * 3600 + tm.min * 60 + tm.sec

/-- Seconds since the epoch, day by day. -/
def secondsOf (d : Day) (second : ℤ) : ℤ :=
  (number d - kJulianDayOf1970_01_01) * kSecondsPerDay + second

theorem timegm_eq {tm : Tm} {d : Day} (h : Names tm d) :
    timegm tm = secondsOf d tm.secondOfDay := by
  rw [timegm, h.year, h.mon, h.mday]
  rfl

theorem Names.secondOfDay_bounds {tm : Tm} {d : Day} (h : Names tm d) :
    0 ≤ tm.secondOfDay ∧ tm.secondOfDay < kSecondsPerDay := by
  have hh := h.hour
  have hm := h.min
  have hs := h.sec
  unfold Tm.secondOfDay kSecondsPerDay
  omega

/-- The mended quotient and remainder are those of the floor. -/
theorem days_eq (t : ℤ) :
    (if t.tmod kSecondsPerDay < 0 then (t.tmod kSecondsPerDay + kSecondsPerDay,
      t.tdiv kSecondsPerDay - 1) else (t.tmod kSecondsPerDay, t.tdiv kSecondsPerDay)) =
      (t % kSecondsPerDay, t / kSecondsPerDay) := by
  have hmod : t.tmod kSecondsPerDay = t - kSecondsPerDay * t.tdiv kSecondsPerDay := by
    have := Int.tmod_add_mul_tdiv t kSecondsPerDay
    omega
  have hlt : (t.tmod kSecondsPerDay).natAbs < 86400 := by
    rw [Int.natAbs_tmod]
    exact Nat.mod_lt _ (by decide)
  unfold kSecondsPerDay at *
  split_ifs with hneg
  · rw [Prod.mk.injEq]
    omega
  · rw [Prod.mk.injEq]
    omega

theorem gmtime_eq (t : ℤ) :
    gmtime t =
      { fillHMS (t % kSecondsPerDay) { zone := gmt } with
        year := (yearMonthDay (t / kSecondsPerDay + kJulianDayOf1970_01_01)).year - 1900
        mon := (yearMonthDay (t / kSecondsPerDay + kJulianDayOf1970_01_01)).month - 1
        mday := (yearMonthDay (t / kSecondsPerDay + kJulianDayOf1970_01_01)).day
        wday := (t / kSecondsPerDay + kJulianDayOf1970_01_01 + 1).tmod 7
        yday := t / kSecondsPerDay + kJulianDayOf1970_01_01 -
          dayNumber (yearMonthDay (t / kSecondsPerDay + kJulianDayOf1970_01_01)).year 1 1 } := by
  simp only [gmtime, days_eq]

/-- The first second of the day with number `0`. -/
def firstSecond : ℤ := -kJulianDayOf1970_01_01 * kSecondsPerDay

/-- 1 January of the year of a day. -/
def newYear (d : Day) : Day := Day.first d.year 1 Day.january_pos Day.january_le

/-- The year of a day with a number that is not negative. -/
theorem year_of_number {d : Day} (hd : start ≤ d) (h : 0 ≤ number d) : -4713 ≤ d.year := by
  by_contra hlt
  let e : Day := Day.first (-4713) 1 Day.january_pos Day.january_le
  have hlte : d < e := Day.lt_iff.2 (Or.inl (not_le.1 hlt))
  have hnum := counts_number.lt_of_lt hd hlte
  have he : number e = -327 := by decide
  omega

/-- A year has at most 366 days. -/
theorem newYear_le (d : Day) (hd : start ≤ newYear d) :
    number (newYear d) ≤ number d ∧ number d ≤ number (newYear d) + 365 := by
  have := d.month_pos
  have := d.day_pos
  have := d.month_le
  have hle : newYear d ≤ d := by
    rw [← not_lt, Day.lt_iff]
    simp only [newYear, Day.first]
    omega
  let e : Day := Day.first (d.year + 1) 1 Day.january_pos Day.january_le
  have hlt : d < e := Day.lt_iff.2 (Or.inl (by simp only [e, Day.first]; omega))
  have hnext := counts_number.lt_of_lt (hd.trans hle) hlt
  have hyear : number e ≤ number (newYear d) + 366 := by
    have hleap := daysBefore_succ (d.year + 4799)
    have hm : ∀ y : ℤ, marchMonth (Day.first y 1 Day.january_pos Day.january_le) = 10 :=
      fun y => rfl
    have hy : ∀ y : ℤ, marchYear (Day.first y 1 Day.january_pos Day.january_le) = y + 4799 :=
      fun y => rfl
    rw [number_eq ((hd.trans hle).trans hlt.le), number_eq hd, newYear, hm, hm, hy, hy]
    have hadd : d.year + 1 + 4799 = d.year + 4799 + 1 := by omega
    simp only [e, Day.first]
    rw [hadd]
    split_ifs at hleap <;> omega
  refine ⟨?_, by omega⟩
  rcases hle.eq_or_lt with heq | hlt'
  · exact (congrArg number heq).le
  · exact (counts_number.lt_of_lt hd hlt').le

theorem start_le_newYear {d : Day} (h : -4713 ≤ d.year) : start ≤ newYear d := by
  rw [← not_lt, Day.lt_iff]
  simp only [newYear, start, Day.first]
  omega

/-- The fields name the day of the calendar and the second of the day that a time is in, with the
day of the week and the day of the year. -/
theorem gmtime_spec {t : ℤ} (h : firstSecond ≤ t) :
    ∃ d, start ≤ d ∧ number d = t / kSecondsPerDay + kJulianDayOf1970_01_01 ∧
      Names (gmtime t) d ∧ t = secondsOf d (gmtime t).secondOfDay ∧
      (gmtime t).wday = (number d + 1) % 7 ∧
      (gmtime t).yday = number d - number (newYear d) ∧
      0 ≤ (gmtime t).yday ∧ (gmtime t).yday ≤ 365 := by
  have hdays : 0 ≤ t / kSecondsPerDay + kJulianDayOf1970_01_01 := by
    unfold firstSecond kSecondsPerDay at *
    omega
  obtain ⟨d, hd, hymd, hnum⟩ := number_of_yearMonthDay (le_trans (by decide) hdays)
  have hsecond : (gmtime t).secondOfDay = t % kSecondsPerDay := by
    rw [gmtime_eq]
    simp only [Tm.secondOfDay, fillHMS, kSecondsPerDay]
    omega
  have hyday : (gmtime t).yday = number d - number (newYear d) := by
    rw [gmtime_eq, hymd, ← hnum]
    rfl
  have hnew := newYear_le d (start_le_newYear (year_of_number hd (hnum ▸ hdays)))
  refine ⟨d, hd, hnum, ?_, ?_, ?_, hyday, ?_, ?_⟩
  · rw [gmtime_eq, hymd]
    constructor <;> simp only [ofDay, fillHMS, kSecondsPerDay] <;> omega
  · rw [hsecond, secondsOf, hnum]
    unfold kSecondsPerDay
    omega
  · rw [gmtime_eq, ← hnum]
    change (number d + 1).tmod 7 = _
    exact Int.tmod_eq_emod_of_nonneg (by omega)
  · omega
  · omega

/-- A time is in one day and at one second of it only. -/
theorem secondsOf_inj {d d' : Day} {s s' : ℤ} (hd : start ≤ d) (hd' : start ≤ d')
    (hs : 0 ≤ s ∧ s < kSecondsPerDay) (hs' : 0 ≤ s' ∧ s' < kSecondsPerDay)
    (h : secondsOf d s = secondsOf d' s') : d = d' ∧ s = s' := by
  have hnum : number d = number d' := by
    unfold secondsOf kSecondsPerDay at *
    omega
  refine ⟨counts_number.injOn hd hd' hnum, ?_⟩
  unfold secondsOf at h
  rw [hnum] at h
  omega

/-- The fields are the day and the second of the day. -/
theorem Names.unique {tm tm' : Tm} {d : Day} (h : Names tm d) (h' : Names tm' d)
    (hs : tm.secondOfDay = tm'.secondOfDay) :
    tm.year = tm'.year ∧ tm.mon = tm'.mon ∧ tm.mday = tm'.mday ∧ tm.hour = tm'.hour ∧
      tm.min = tm'.min ∧ tm.sec = tm'.sec := by
  have := h.year
  have := h'.year
  have := h.mon
  have := h'.mon
  have := h.mday
  have := h'.mday
  have := h.min
  have := h'.min
  have := h.sec
  have := h'.sec
  simp only [Tm.secondOfDay] at hs
  refine ⟨?_, ?_, ?_, ?_, ?_, ?_⟩ <;> omega

/-- No time is lost on the way through the fields. -/
theorem timegm_gmtime {t : ℤ} (ht : firstSecond ≤ t) : timegm (gmtime t) = t := by
  obtain ⟨d, -, -, hnames, hsec, -⟩ := gmtime_spec ht
  rw [timegm_eq hnames]
  exact hsec.symm

/-- Nor are fields that name a day and a time of it. -/
theorem gmtime_timegm {tm : Tm} {d : Day} (hnames : Names tm d) (hd : start ≤ d)
    (hnum : 0 ≤ number d) :
    firstSecond ≤ timegm tm ∧ Names (gmtime (timegm tm)) d ∧
      (gmtime (timegm tm)).secondOfDay = tm.secondOfDay := by
  have hbounds := hnames.secondOfDay_bounds
  have hle : firstSecond ≤ timegm tm := by
    rw [timegm_eq hnames]
    unfold firstSecond secondsOf kSecondsPerDay at *
    omega
  obtain ⟨d', hd', -, hnames', hsec, -⟩ := gmtime_spec hle
  have heq := timegm_eq hnames
  rw [heq] at hsec
  obtain ⟨rfl, hs⟩ := secondsOf_inj hd hd' hbounds (heq ▸ hnames'.secondOfDay_bounds) hsec
  rw [← heq] at hs
  exact ⟨hle, hnames', hs.symm⟩

/-! ### In `int` -/

/-- The first second behind the day with the last number. -/
def endSecond : ℤ := (lastNumber + 1 - kJulianDayOf1970_01_01) * kSecondsPerDay

theorem kJulianDayOf1970_01_01_eq : kJulianDayOf1970_01_01 = 2440588 := by decide

/-- The quotient and the remainder of a division in `int`. -/
theorem mend_eq {t : ℤ} (h : firstSecond ≤ t) (hend : t < endSecond) :
    mended (toInt (t.tmod kSecondsPerDay)) (toInt (t.tdiv kSecondsPerDay)) =
      some (t % kSecondsPerDay, t / kSecondsPerDay) := by
  have hlt : (t.tmod kSecondsPerDay).natAbs < 86400 := by
    rw [Int.natAbs_tmod]
    exact Nat.mod_lt _ (by decide)
  have hmod : t.tmod kSecondsPerDay + kSecondsPerDay * t.tdiv kSecondsPerDay = t :=
    Int.tmod_add_mul_tdiv t kSecondsPerDay
  have hdays := days_eq t
  have hjulian := kJulianDayOf1970_01_01_eq
  unfold firstSecond endSecond lastNumber kSecondsPerDay at *
  rw [toInt_of (by unfold IsInt; omega), toInt_of (by unfold IsInt; omega), ← hdays, mended]
  split_ifs with hneg
  · rw [int_bind (by unfold IsInt kSecondsPerDay; omega), int_bind (by unfold IsInt; omega)]
    rfl
  · rfl

theorem getJulianDayNumber_newYear {d : Day} (hd : start ≤ d) (hnum : 0 ≤ number d)
    (hlast : number d ≤ lastNumber) :
    getJulianDayNumber d.year 1 1 = some (number (newYear d)) := by
  have hy := marchYear_le hd hlast
  refine getJulianDayNumber_eq (start_le_newYear (year_of_number hd hnum)) ?_
  change d.year + 4799 ≤ _
  unfold marchYear at hy
  split_ifs at hy <;> omega

theorem year_range {d : Day} (hd : start ≤ d) (hlast : number d ≤ lastNumber) :
    -4801 ≤ d.year ∧ d.year ≤ 1466081 := by
  have hle := marchYear_le hd hlast
  have hy := marchYear_nonneg hd
  unfold marchYear at hle hy
  split_ifs at hle hy <;> omega

/-- Nothing overflows in `toUtcTime`. -/
theorem toUtcTime_eq {t : ℤ} (h : firstSecond ≤ t) (hend : t < endSecond) (yday : Bool) :
    toUtcTime t yday =
      some (if yday then gmtime t else { gmtime t with yday := 0 }) := by
  have hdays : 0 ≤ t / kSecondsPerDay + kJulianDayOf1970_01_01 ∧
      t / kSecondsPerDay + kJulianDayOf1970_01_01 ≤ lastNumber := by
    unfold firstSecond endSecond kSecondsPerDay at *
    omega
  have hmend := mend_eq h hend
  obtain ⟨d, hd, hymd, hnum⟩ := number_of_yearMonthDay (le_trans (by decide) hdays.1)
  have hymd' := getYearMonthDay_eq (le_trans (by decide) hdays.1) hdays.2
  have hyear := getJulianDayNumber_newYear hd (hnum ▸ hdays.1) (hnum ▸ hdays.2)
  have hnew := newYear_le d (start_le_newYear (year_of_number hd (hnum ▸ hdays.1)))
  have hbound := year_range hd (hnum ▸ hdays.2)
  have hmpos := d.month_pos
  have hmle := d.month_le
  unfold lastNumber at hdays
  have hwday : weekDay (t / kSecondsPerDay + kJulianDayOf1970_01_01) =
      some ((t / kSecondsPerDay + kJulianDayOf1970_01_01 + 1).tmod 7) :=
    int_bind (by unfold IsInt; omega) _
  rw [gmtime_eq, toUtcTime, hmend, some_bind]
  simp only
  rw [int_bind, hymd', some_bind, hymd, int_bind, int_bind, hwday, some_bind]
  · cases yday with
    | false => rfl
    | true =>
      rw [if_pos rfl, if_pos rfl]
      simp only [ofDay]
      rw [hyear, some_bind, int_bind]
      · rfl
      · unfold IsInt
        omega
  all_goals
    simp only [IsInt, ofDay]
    omega

/-- Nothing overflows in `fromUtcTime`. -/
theorem fromUtcTime_eq {tm : Tm} {d : Day} (hnames : Names tm d) (hd : start ≤ d)
    (hnum : 0 ≤ number d) (hlast : number d ≤ lastNumber) : fromUtcTime tm = some (timegm tm) := by
  have hyear := hnames.year
  have hmon := hnames.mon
  have hh := hnames.hour
  have hm := hnames.min
  have hs := hnames.sec
  have hbound := year_range hd hlast
  have hmpos := d.month_pos
  have hmle := d.month_le
  have hjulian := kJulianDayOf1970_01_01_eq
  have hle := marchYear_le hd hlast
  have hdate := getJulianDayNumber_eq hd (by omega)
  unfold lastNumber at hlast
  rw [fromUtcTime, int_bind, int_bind, fromUtcFields, hyear, hmon, hnames.mday, hdate, some_bind,
    int_bind, int_bind, int_bind, int_bind, int_bind, timegm_eq hnames]
  · rfl
  all_goals
    unfold IsInt
    omega

/-- The two functions are inverse to each other, and nothing overflows: on all times of the days
with the numbers from `0` to the last one, and on the fields that name such a day and a time of
it. -/
theorem utc_roundTrip (yday : Bool) :
    (∀ t, firstSecond ≤ t → t < endSecond →
      ∃ tm, toUtcTime t yday = some tm ∧ fromUtcTime tm = some t) ∧
      ∀ tm d, Names tm d → start ≤ d → 0 ≤ number d → number d ≤ lastNumber →
        ∃ t tm', fromUtcTime tm = some t ∧ toUtcTime t yday = some tm' ∧
          tm'.year = tm.year ∧ tm'.mon = tm.mon ∧ tm'.mday = tm.mday ∧
          tm'.hour = tm.hour ∧ tm'.min = tm.min ∧ tm'.sec = tm.sec := by
  refine ⟨fun t h hend => ⟨_, toUtcTime_eq h hend yday, ?_⟩, fun tm d hnames hd hnum hlast => ?_⟩
  · obtain ⟨d, hd, hnum, hnames, -⟩ := gmtime_spec h
    have hrange : 0 ≤ number d ∧ number d ≤ lastNumber := by
      rw [hnum]
      unfold firstSecond endSecond kSecondsPerDay at *
      omega
    have hback := timegm_gmtime h
    cases yday with
    | false =>
      have hnames' : Names { gmtime t with yday := 0 } d :=
        ⟨hnames.year, hnames.mon, hnames.mday, hnames.hour, hnames.min, hnames.sec⟩
      exact (fromUtcTime_eq hnames' hd hrange.1 hrange.2).trans (congrArg some hback)
    | true => exact (fromUtcTime_eq hnames hd hrange.1 hrange.2).trans (congrArg some hback)
  · obtain ⟨hle, hnames', hsecond⟩ := gmtime_timegm hnames hd hnum
    have hend : timegm tm < endSecond := by
      have hs := hnames.secondOfDay_bounds
      rw [timegm_eq hnames]
      unfold secondsOf endSecond kSecondsPerDay at *
      omega
    refine ⟨_, _, fromUtcTime_eq hnames hd hnum hlast, toUtcTime_eq hle hend yday, ?_⟩
    cases yday <;> exact hnames'.unique hnames hsecond

/-- The last second of the last day. -/
theorem utc_roundTrip_lastDay :
    ∃ tm, toUtcTime 46172011391999 true = some tm ∧ fromUtcTime tm = some 46172011391999 :=
  (utc_roundTrip true).1 46172011391999 (by decide) (by decide)

/-- One second before the epoch. -/
example : (toUtcTime (-1) true).map Tm.secondOfDay = some 86399 ∧
    (toUtcTime (-1) true).map (fun tm => (tm.mday, tm.mon, tm.year, tm.wday, tm.yday)) =
      some (31, 11, 69, 3, 364) := by decide

end TimeZone
