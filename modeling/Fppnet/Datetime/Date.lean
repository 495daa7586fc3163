import Fppnet.Library.Calendar
import Fppnet.Library.MachineInt

/-!
# `Date`

A date is its Julian day number (`src/base/datetime/Date.cc`). Both conversions compute with years
that begin in March, so that the leap day comes last, and with the truncating division of C++.

The formulas count the days of the Gregorian calendar from 1 March -4800, their first day
(`counts_number`), and are inverse to each other (`yearMonthDay_of_number`,
`number_of_yearMonthDay`). `getJulianDayNumber` and `getYearMonthDay` compute them in `int`:
`calendar_roundTrip` says that nothing overflows up to `lastNumber`, and that `getYearMonthDay` does
behind it.
-/

open Calendar MachineInt

namespace Date

/-- The number of the day `year-month-day`. -/
def getJulianDayNumber (year month day : ℤ) : Option ℤ := do
  let a := (← int (14 - month)).tdiv 12
  let y ← int ((← int (year + 4800)) - a)
  let m ← int ((← int (month + (← int (12 * a)))) - 3)
  let n ← int (day + (← int ((← int (153 * m)) + 2)).tdiv 5)
  let n ← int (n + (← int (y * 365)))
  let n ← int (n + y.tdiv 4)
  let n ← int (n - y.tdiv 100)
  let n ← int (n + y.tdiv 400)
  int (n - 32045)

structure YearMonthDay where
  year : ℤ
  month : ℤ
  day : ℤ
  deriving DecidableEq

/-- The day with a number. -/
def getYearMonthDay (julianDayNumber : ℤ) : Option YearMonthDay := do
  let a ← int (julianDayNumber + 32044)
  let b := (← int ((← int (4 * a)) + 3)).tdiv 146097
  let c ← int (a - (← int (b * 146097)).tdiv 4)
  let d := (← int ((← int (4 * c)) + 3)).tdiv 1461
  let e ← int (c - (← int (1461 * d)).tdiv 4)
  let m := (← int ((← int (5 * e)) + 2)).tdiv 153
  let day ← int ((← int (e - (← int ((← int (153 * m)) + 2)).tdiv 5)) + 1)
  let month ← int ((← int (m + 3)) - (← int (12 * m.tdiv 10)))
  let year ← int ((← int ((← int ((← int (b * 100)) + d)) - 4800)) + m.tdiv 10)
  some { year, month, day }

/-- `kJulianDayOf1970_01_01` -/
def kJulianDayOf1970_01_01 : ℤ := (getJulianDayNumber 1970 1 1).getD 0

/-- `weekDay`, from Sunday on. -/
def weekDay (julianDayNumber : ℤ) : Option ℤ := do
  return (← int (julianDayNumber + 1)).tmod 7

/-! ### The formulas -/

/-- What `getJulianDayNumber` computes, in integers. -/
def dayNumber (year month day : ℤ) : ℤ :=
  let a := (14 - month).tdiv 12
  let y := year + 4800 - a
  let m := month + 12 * a - 3
  day + (153 * m + 2).tdiv 5 + y * 365 + y.tdiv 4 - y.tdiv 100 + y.tdiv 400 - 32045

/-- What `getYearMonthDay` computes, in integers. -/
def yearMonthDay (julianDayNumber : ℤ) : YearMonthDay :=
  let a := julianDayNumber + 32044
  let b := (4 * a + 3).tdiv 146097
  let c := a - (b * 146097).tdiv 4
  let d := (4 * c + 3).tdiv 1461
  let e := c - (1461 * d).tdiv 4
  let m := (5 * e + 2).tdiv 153
  { day := e - (153 * m + 2).tdiv 5 + 1
    month := m + 3 - 12 * m.tdiv 10
    year := b * 100 + d - 4800 + m.tdiv 10 }

/-- The number of a day of the calendar. -/
def number (d : Day) : ℤ := dayNumber d.year d.month d.day

/-- The fields of a day of the calendar. -/
def ofDay (d : Day) : YearMonthDay := ⟨d.year, d.month, d.day⟩

/-- The first day of the formula. -/
def start : Day := Day.first (-4800) 3 (by decide) (by decide)

/-! ### The day number counts the days -/

/-- The days in front of the March year `y`. -/
def daysBefore (y : ℤ) : ℤ := y * 365 + y / 4 - y / 100 + y / 400

theorem daysBefore_nonneg {y : ℤ} (h : 0 ≤ y) : 0 ≤ daysBefore y := by
  have := Int.ediv_le_self 100 h
  unfold daysBefore
  omega

theorem daysBefore_succ (y : ℤ) :
    daysBefore (y + 1) = daysBefore y + 365 + if IsLeap (y + 1) then 1 else 0 := by
  unfold daysBefore IsLeap
  split_ifs with h <;> omega

theorem isLeap_add (y : ℤ) : IsLeap (y + 4800) ↔ IsLeap y := by
  unfold IsLeap
  omega

/-- The year that begins in March. -/
def marchYear (d : Day) : ℤ := if d.month < 3 then d.year + 4799 else d.year + 4800

/-- The month of the year that begins in March. -/
def marchMonth (d : Day) : ℤ := if d.month < 3 then d.month + 9 else d.month - 3

theorem marchYear_nonneg {d : Day} (h : start ≤ d) : 0 ≤ marchYear d := by
  have hle : start.rank ≤ d.rank := h
  have := d.day_le_31
  have := d.month_le
  change 372 * (-4800) + 31 * 3 + 1 ≤ 372 * d.year + 31 * d.month + d.day at hle
  unfold marchYear
  split_ifs <;> omega

theorem marchMonth_bounds (d : Day) : 0 ≤ marchMonth d ∧ marchMonth d ≤ 11 := by
  have := d.month_pos
  have := d.month_le
  unfold marchMonth
  split_ifs <;> omega

/-- The formula without truncation. -/
theorem number_eq {d : Day} (h : start ≤ d) :
    number d = d.day + (153 * marchMonth d + 2) / 5 + daysBefore (marchYear d) - 32045 := by
  have hy := marchYear_nonneg h
  have hm := (marchMonth_bounds d).1
  have := d.month_pos
  have := d.month_le
  have ha : (14 - d.month).tdiv 12 = if d.month < 3 then 1 else 0 := by
    rw [Int.tdiv_eq_ediv_of_nonneg (by omega)]
    split_ifs <;> omega
  have hyear : d.year + 4800 - (14 - d.month).tdiv 12 = marchYear d := by
    rw [ha, marchYear]
    split_ifs <;> omega
  have hmonth : d.month + 12 * (14 - d.month).tdiv 12 - 3 = marchMonth d := by
    rw [ha, marchMonth]
    split_ifs <;> omega
  simp only [number, dayNumber, hyear, hmonth, daysBefore]
  rw [Int.tdiv_eq_ediv_of_nonneg (by omega), Int.tdiv_eq_ediv_of_nonneg hy,
    Int.tdiv_eq_ediv_of_nonneg hy, Int.tdiv_eq_ediv_of_nonneg hy]
  omega

/-- A month is as long as the formula has it, except that the one before March is February. -/
theorem month_length {y m : ℤ} (hpos : 1 ≤ m) (hle : m ≤ 12) (hm : m ≠ 2) :
    daysInMonth y m =
      (153 * (if m < 3 then m + 10 else m - 2) + 2) / 5 -
        (153 * (if m < 3 then m + 9 else m - 3) + 2) / 5 := by
  unfold daysInMonth
  interval_cases m <;> simp at hm ⊢

/-- **The day number counts the days.** -/
theorem counts_number : Counts start number := by
  intro d hd
  have hsucc := hd.trans d.lt_succ.le
  rw [number_eq hd, number_eq hsucc]
  have hpos := d.month_pos
  have hle := d.month_le
  rcases d.succ_cases with ⟨-, hy, hm, hday⟩ | ⟨hlast, hlt, hy, hm, hday⟩ |
    ⟨hlast, hdec, hy, hm, hday⟩
  · rw [hday]
    simp only [marchMonth, marchYear, hy, hm]
    omega
  · by_cases hfeb : d.month = 2
    · -- the March year ends
      have hleap := daysBefore_succ (d.year + 4799)
      have hadd : d.year + 4799 + 1 = d.year + 4800 := by omega
      rw [hadd, if_congr (isLeap_add d.year) rfl rfl] at hleap
      have hlen : daysInMonth d.year 2 = if IsLeap d.year then 29 else 28 := rfl
      rw [hfeb, hlen] at hlast
      simp only [marchMonth, marchYear, hy, hm, hday, hfeb]
      norm_num
      split_ifs at hleap hlast <;> omega
    · have hlen := month_length (y := d.year) hpos hle hfeb
      simp only [marchMonth, marchYear, hy, hm, hday]
      rw [hlast, hlen]
      split_ifs <;> omega
  · have hyear : d.year + 1 + 4799 = d.year + 4800 := by omega
    simp only [marchMonth, marchYear, hy, hm, hday, hdec]
    norm_num
    rw [hyear]
    omega

/-! ### The inverse -/

/-- The day of the March year, from `0` on. -/
def dayOfYear (d : Day) : ℤ := d.day - 1 + (153 * marchMonth d + 2) / 5

theorem isLeap_march {d : Day} (h : d.month < 3) : IsLeap (marchYear d + 1) ↔ IsLeap d.year := by
  rw [marchYear, if_pos h, ← isLeap_add d.year]
  have heq : d.year + 4799 + 1 = d.year + 4800 := by omega
  rw [heq]

/-- A March year has 365 days, or 366 if it ends in a leap year. -/
theorem dayOfYear_bounds (d : Day) : 0 ≤ dayOfYear d ∧ dayOfYear d ≤ 365 ∧
    (dayOfYear d = 365 → IsLeap (marchYear d + 1)) := by
  have hday := d.day_pos
  have hle := d.day_le
  have hm := marchMonth_bounds d
  have hmpos := d.month_pos
  have hmle := d.month_le
  by_cases hfeb : d.month = 2
  · have hmarch : marchMonth d = 11 := by
      rw [marchMonth, hfeb]
      rfl
    have hlen : daysInMonth d.year 2 = if IsLeap d.year then 29 else 28 := rfl
    rw [hfeb, hlen] at hle
    have hleap := isLeap_march (d := d) (by omega)
    rw [dayOfYear, hmarch]
    split_ifs at hle with hyes
    · exact ⟨by omega, by omega, fun _ => hleap.2 hyes⟩
    · exact ⟨by omega, by omega, fun _ => by omega⟩
  · have hlen := month_length (y := d.year) hmpos hmle hfeb
    have hlt : marchMonth d ≤ 10 := by
      rw [marchMonth]
      split_ifs <;> omega
    have hend : dayOfYear d < (153 * (marchMonth d + 1) + 2) / 5 := by
      rw [dayOfYear]
      simp only [marchMonth]
      split_ifs at hlen ⊢ <;> omega
    refine ⟨?_, by omega, fun _ => by omega⟩
    rw [dayOfYear]
    omega

/-- The month and the day from the day of the March year. -/
theorem month_of_dayOfYear (d : Day) : (5 * dayOfYear d + 2) / 153 = marchMonth d := by
  have hday := d.day_pos
  have hle := d.day_le
  have hm := marchMonth_bounds d
  have hmpos := d.month_pos
  have hmle := d.month_le
  by_cases hfeb : d.month = 2
  · have hmarch : marchMonth d = 11 := by
      rw [marchMonth, hfeb]
      rfl
    have hbounds := dayOfYear_bounds d
    rw [dayOfYear, hmarch] at hbounds ⊢
    omega
  · have hlen := month_length (y := d.year) hmpos hmle hfeb
    rw [dayOfYear]
    simp only [marchMonth]
    split_ifs at hlen ⊢ <;> omega

/-- The century, the year of the century and the day of the year from the days in front of a day. -/
theorem year_of_days {y n : ℤ} (hy : 0 ≤ y) (h0 : 0 ≤ n) (h1 : n ≤ 365)
    (hleap : n = 365 → IsLeap (y + 1)) :
    (4 * (n + daysBefore y) + 3) / 146097 = y / 100 ∧
      n + daysBefore y - y / 100 * 146097 / 4 = 365 * (y % 100) + y % 100 / 4 + n ∧
      (4 * (365 * (y % 100) + y % 100 / 4 + n) + 3) / 1461 = y % 100 ∧
      365 * (y % 100) + y % 100 / 4 + n - 1461 * (y % 100) / 4 = n := by
  -- `y = 100 B + D`, and a leap day at the end of a century only if `B` is the last of its four
  obtain ⟨B, D, hB, hD, rfl⟩ : ∃ B D : ℤ, y / 100 = B ∧ y % 100 = D ∧ y = 100 * B + D :=
    ⟨y / 100, y % 100, rfl, rfl, by omega⟩
  have hD0 : 0 ≤ D ∧ D ≤ 99 := by omega
  have hdays : daysBefore (100 * B + D) = 36524 * B + B / 4 + 365 * D + D / 4 := by
    unfold daysBefore
    omega
  have hlast : n = 365 → D % 4 = 3 ∧ (D = 99 → B % 4 = 3) := by
    intro hn
    have hdiv := hleap hn
    unfold IsLeap at hdiv
    omega
  rw [hB, hD, hdays]
  refine ⟨?_, ?_, ?_, ?_⟩ <;> omega

/-- The day that a number was computed from comes back. -/
theorem yearMonthDay_of_number {d : Day} (h : start ≤ d) :
    yearMonthDay (number d) = ofDay d := by
  have hy := marchYear_nonneg h
  obtain ⟨hn0, hn1, hleap⟩ := dayOfYear_bounds d
  obtain ⟨hb, hc, hd, he⟩ := year_of_days hy hn0 hn1 hleap
  have hm := month_of_dayOfYear d
  have hmb := marchMonth_bounds d
  have hmpos := d.month_pos
  have hmle := d.month_le
  have hdays := daysBefore_nonneg hy
  have hnum : number d + 32044 = dayOfYear d + daysBefore (marchYear d) := by
    rw [number_eq h, dayOfYear]
    omega
  have hcentury : 0 ≤ marchYear d / 100 := by omega
  simp only [yearMonthDay, hnum]
  rw [Int.tdiv_eq_ediv_of_nonneg (a := 4 * (dayOfYear d + daysBefore (marchYear d)) + 3) (by omega),
    hb, Int.tdiv_eq_ediv_of_nonneg (a := marchYear d / 100 * 146097) (by omega), hc,
    Int.tdiv_eq_ediv_of_nonneg
      (a := 4 * (365 * (marchYear d % 100) + marchYear d % 100 / 4 + dayOfYear d) + 3) (by omega),
    hd, Int.tdiv_eq_ediv_of_nonneg (a := 1461 * (marchYear d % 100)) (by omega), he,
    Int.tdiv_eq_ediv_of_nonneg (a := 5 * dayOfYear d + 2) (by omega), hm,
    Int.tdiv_eq_ediv_of_nonneg (a := 153 * marchMonth d + 2) (by omega),
    Int.tdiv_eq_ediv_of_nonneg (a := marchMonth d) (by omega), ofDay]
  congr 1
  · rw [marchYear, marchMonth]
    split_ifs <;> omega
  · rw [marchMonth]
    split_ifs <;> omega
  · rw [dayOfYear]
    omega

/-- Every number from that of `start` on is the number of a day. -/
theorem number_of_yearMonthDay {n : ℤ} (h : number start ≤ n) :
    ∃ d, start ≤ d ∧ yearMonthDay n = ofDay d ∧ number d = n := by
  obtain ⟨d, hd, hn⟩ := counts_number.exists_day h
  exact ⟨d, hd, hn ▸ yearMonthDay_of_number hd, hn⟩

/-! ### The formulas in `int` -/

/-- The last number with which `getYearMonthDay` does not overflow. -/
def lastNumber : ℤ := 536838867

theorem marchYear_le {d : Day} (h : start ≤ d) (hlast : number d ≤ lastNumber) :
    marchYear d ≤ 1470880 := by
  have hy := marchYear_nonneg h
  have hm := marchMonth_bounds d
  have hpos := d.day_pos
  rw [number_eq h] at hlast
  unfold daysBefore lastNumber at hlast
  omega

/-- Nothing overflows on the way to the number of a day. -/
theorem getJulianDayNumber_eq {d : Day} (h : start ≤ d) (hy : marchYear d ≤ 1470881) :
    getJulianDayNumber d.year d.month d.day = some (number d) := by
  have hy0 := marchYear_nonneg h
  have hm := marchMonth_bounds d
  have hmpos := d.month_pos
  have hmle := d.month_le
  have hdpos := d.day_pos
  have hdle := d.day_le_31
  have ha : (14 - d.month).tdiv 12 = if d.month < 3 then 1 else 0 := by
    rw [Int.tdiv_eq_ediv_of_nonneg (by omega)]
    split_ifs <;> omega
  have ha01 : 0 ≤ (14 - d.month).tdiv 12 ∧ (14 - d.month).tdiv 12 ≤ 1 := by
    rw [ha]
    split_ifs <;> omega
  have hyear : d.year + 4800 - (14 - d.month).tdiv 12 = marchYear d := by
    rw [ha, marchYear]
    split_ifs <;> omega
  have hmonth : d.month + 12 * (14 - d.month).tdiv 12 - 3 = marchMonth d := by
    rw [ha, marchMonth]
    split_ifs <;> omega
  have h5 : (153 * marchMonth d + 2).tdiv 5 = (153 * marchMonth d + 2) / 5 :=
    Int.tdiv_eq_ediv_of_nonneg (by omega)
  have h4 : (marchYear d).tdiv 4 = marchYear d / 4 := Int.tdiv_eq_ediv_of_nonneg hy0
  have h100 : (marchYear d).tdiv 100 = marchYear d / 100 := Int.tdiv_eq_ediv_of_nonneg hy0
  have h400 : (marchYear d).tdiv 400 = marchYear d / 400 := Int.tdiv_eq_ediv_of_nonneg hy0
  simp only [number, dayNumber, hyear, hmonth, h5, h4, h100, h400]
  unfold getJulianDayNumber
  rw [int_bind, int_bind, int_bind, int_bind, int_bind, int_bind, int_bind, int_bind, hyear, hmonth,
    int_bind, h5, int_bind, int_bind, int_bind, h4, int_bind, h100, int_bind, h400, int_of]
  all_goals
    unfold IsInt
    omega

/-- Nothing overflows on the way from a number to its day. -/
theorem getYearMonthDay_eq {n : ℤ} (h : number start ≤ n) (hlast : n ≤ lastNumber) :
    getYearMonthDay n = some (yearMonthDay n) := by
  have hstart : number start = -32044 := by decide
  unfold lastNumber at hlast
  obtain ⟨a, ha⟩ : ∃ a, n + 32044 = a := ⟨_, rfl⟩
  obtain ⟨b, hb⟩ : ∃ b, (4 * a + 3) / 146097 = b := ⟨_, rfl⟩
  obtain ⟨c, hc⟩ : ∃ c, a - b * 146097 / 4 = c := ⟨_, rfl⟩
  obtain ⟨d, hd⟩ : ∃ d, (4 * c + 3) / 1461 = d := ⟨_, rfl⟩
  obtain ⟨e, he⟩ : ∃ e, c - 1461 * d / 4 = e := ⟨_, rfl⟩
  obtain ⟨m, hm⟩ : ∃ m, (5 * e + 2) / 153 = m := ⟨_, rfl⟩
  have hc0 : 0 ≤ c ∧ c ≤ 36524 := by omega
  have he0 : 0 ≤ e ∧ e ≤ 365 := by omega
  have hb' : (4 * a + 3).tdiv 146097 = b := by rw [Int.tdiv_eq_ediv_of_nonneg (by omega), hb]
  have hc' : (b * 146097).tdiv 4 = b * 146097 / 4 := Int.tdiv_eq_ediv_of_nonneg (by omega)
  have hd' : (4 * c + 3).tdiv 1461 = d := by rw [Int.tdiv_eq_ediv_of_nonneg (by omega), hd]
  have he' : (1461 * d).tdiv 4 = 1461 * d / 4 := Int.tdiv_eq_ediv_of_nonneg (by omega)
  have hm' : (5 * e + 2).tdiv 153 = m := by rw [Int.tdiv_eq_ediv_of_nonneg (by omega), hm]
  have h5 : (153 * m + 2).tdiv 5 = (153 * m + 2) / 5 := Int.tdiv_eq_ediv_of_nonneg (by omega)
  have h10 : m.tdiv 10 = m / 10 := Int.tdiv_eq_ediv_of_nonneg (by omega)
  simp only [yearMonthDay, ha, hb', hc', hc, hd', he', he, hm', h5, h10]
  unfold getYearMonthDay
  rw [int_bind, ha, int_bind, int_bind, hb', int_bind, hc', int_bind, hc, int_bind, int_bind, hd',
    int_bind, he', int_bind, he, int_bind, int_bind, hm', int_bind, int_bind, h5, int_bind,
    int_bind, int_bind, h10, int_bind, int_bind, int_bind, int_bind, int_bind, int_bind]
  all_goals
    unfold IsInt
    omega

/-- Behind the last number `4 * a` overflows. -/
theorem getYearMonthDay_overflow {n : ℤ} (h : lastNumber < n) : getYearMonthDay n = none := by
  unfold lastNumber at h
  unfold getYearMonthDay
  by_cases ha : IsInt (n + 32044)
  · have hover : int (4 * (n + 32044)) = none := int_of_not (by unfold IsInt; omega)
    rw [int_bind ha, hover]
    rfl
  · rw [int_of_not ha]
    rfl

/-- From 1 March -4800 to the last number a date and its day number determine each other, the
numbers are consecutive, and dates compare like the days of the calendar. The arithmetic of `int`
overflows behind the last number. -/
theorem calendar_roundTrip :
    (∀ d, start ≤ d → number d ≤ lastNumber →
      getJulianDayNumber d.year d.month d.day = some (number d) ∧
        getYearMonthDay (number d) = some (ofDay d) ∧ number d.succ = number d + 1) ∧
      (∀ n, number start ≤ n → n ≤ lastNumber → ∃ d, start ≤ d ∧
        getYearMonthDay n = some (ofDay d) ∧ getJulianDayNumber d.year d.month d.day = some n) ∧
      (∀ n, lastNumber < n → getYearMonthDay n = none) ∧
      ∀ d d', start ≤ d → start ≤ d' → (number d < number d' ↔ d < d') := by
  refine ⟨fun d hd hlast => ⟨?_, ?_, counts_number d hd⟩, fun n h hlast => ?_,
    fun n => getYearMonthDay_overflow, fun d d' => counts_number.lt_iff⟩
  · have hy := marchYear_le hd hlast
    exact getJulianDayNumber_eq hd (by omega)
  · have hle : number start ≤ number d := by
      rcases hd.eq_or_lt with heq | hlt
      · rw [heq]
      · exact (counts_number.lt_of_lt (le_refl _) hlt).le
    rw [getYearMonthDay_eq hle hlast, yearMonthDay_of_number hd]
  · obtain ⟨d, hd, hymd, hnum⟩ := number_of_yearMonthDay h
    have hy := marchYear_le hd (hnum.trans_le hlast)
    refine ⟨d, hd, ?_, ?_⟩
    · rw [getYearMonthDay_eq h hlast, hymd]
    · rw [getJulianDayNumber_eq hd (by omega), hnum]

/-- 1 January 1970 was a Thursday. -/
example : kJulianDayOf1970_01_01 = 2440588 ∧ weekDay kJulianDayOf1970_01_01 = some 4 := by decide

end Date
