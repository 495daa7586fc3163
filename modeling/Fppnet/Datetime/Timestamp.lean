import Fppnet.Library.FixedWidth
import Fppnet.Datetime.UtcTime

/-!
# The text of a `Timestamp`

`toFormattedString` of `src/base/datetime/Timestamp.cpp`. It divides with truncation and prints the
fields of `gmtime_r` with `snprintf`. From the epoch to the end of the year 9999 the text has a
fixed width (`toFormattedString_eq`), so the texts are in the order of the times
(`toFormattedString_lt_iff`).
-/

open Calendar Date TimeZone FixedWidth

namespace Timestamp

def kMicroSecondsPerSecond : ℤ := 1000 * 1000

/-- `%4d`, for a width of 4. -/
def blankPadded (w : ℕ) (v : ℤ) : List Char := (toString v).toList.leftpad w ' '

/-- `%02d`, for a width of 2. -/
def zeroPadded (w : ℕ) (v : ℤ) : List Char :=
  if v < 0 then '-' :: (toString (-v)).toList.leftpad (w - 1) '0'
  else (toString v).toList.leftpad w '0'

/-- `"%4d%02d%02d %02d:%02d:%02d"`. -/
def formatTm (tm : Tm) : List Char :=
  blankPadded 4 (tm.year + 1900) ++ (zeroPadded 2 (tm.mon + 1) ++ (zeroPadded 2 tm.mday ++
    ' ' :: (zeroPadded 2 tm.hour ++ ':' :: (zeroPadded 2 tm.min ++ ':' :: zeroPadded 2 tm.sec))))

/-- `toFormattedString` -/
def toFormattedString (microSecondsSinceEpoch : ℤ) : List Char :=
  formatTm (gmtime (microSecondsSinceEpoch.tdiv kMicroSecondsPerSecond)) ++
    '.' :: zeroPadded 6 (microSecondsSinceEpoch.tmod kMicroSecondsPerSecond)

/-- The first second after the year 9999. -/
def endSecond : ℤ := 253402300800

/-- The times whose texts have a fixed width. -/
def InRange (t : ℤ) : Prop := 0 ≤ t ∧ t < endSecond * kMicroSecondsPerSecond

instance (t : ℤ) : Decidable (InRange t) := inferInstanceAs (Decidable (_ ∧ _))

/-! ### The fields -/

theorem zeroPadded_eq {w : ℕ} {v : ℤ} (hw : 0 < w) (h0 : 0 ≤ v) (h : v < 10 ^ w) :
    zeroPadded w v = fixed w v.toNat := by
  obtain ⟨n, rfl⟩ := Int.eq_ofNat_of_zero_le h0
  have hn : n < 10 ^ w := by exact_mod_cast h
  rw [zeroPadded, if_neg (not_lt.2 h0), Int.toNat_natCast, fixed_eq_leftpad hw hn]
  change (toString n).toList.leftpad w '0' = _
  rw [Nat.toString_eq_repr, Nat.toList_repr]

/-- A number that fills its width needs no blanks. -/
theorem blankPadded_eq {w : ℕ} {v : ℤ} (hlo : 10 ^ w ≤ v) (hhi : v < 10 ^ (w + 1)) :
    blankPadded (w + 1) v = fixed (w + 1) v.toNat := by
  obtain ⟨n, rfl⟩ := Int.eq_ofNat_of_zero_le ((pow_nonneg (by decide) w).trans hlo)
  have hn : n < 10 ^ (w + 1) := by exact_mod_cast hhi
  have hle : 10 ^ w ≤ n := by exact_mod_cast hlo
  have hlen : w + 1 ≤ (Nat.toDigits 10 n).length := by
    rcases Nat.eq_zero_or_pos w with rfl | hw
    · exact Nat.length_toDigits_pos
    · rw [Nat.succ_le_iff, ← not_le, Nat.length_toDigits_le_iff (by decide) hw]
      exact not_lt.2 hle
  rw [blankPadded, Int.toNat_natCast, fixed_eq_leftpad (Nat.succ_pos w) hn]
  change (toString n).toList.leftpad (w + 1) ' ' = _
  rw [Nat.toString_eq_repr, Nat.toList_repr, List.leftpad, List.leftpad,
    Nat.sub_eq_zero_of_le hlen]
  rfl

/-- The fields of a text. -/
def fields : List Field :=
  [⟨[], 4⟩, ⟨[], 2⟩, ⟨[], 2⟩, ⟨[' '], 2⟩, ⟨[':'], 2⟩, ⟨[':'], 2⟩, ⟨['.'], 6⟩]

/-- The numbers in them. -/
def values (t : ℤ) : List ℕ :=
  let tm := gmtime (t / kMicroSecondsPerSecond)
  [(tm.year + 1900).toNat, (tm.mon + 1).toNat, tm.mday.toNat, tm.hour.toNat, tm.min.toNat,
    tm.sec.toNat, (t % kMicroSecondsPerSecond).toNat]

/-- The seconds of the times that are looked at. -/
theorem second_bounds {t : ℤ} (h : InRange t) :
    0 ≤ t / kMicroSecondsPerSecond ∧ t / kMicroSecondsPerSecond < endSecond := by
  unfold InRange endSecond kMicroSecondsPerSecond at *
  omega

/-- The day of a second has a year of four digits. -/
theorem year_bounds {d : Day} {s second : ℤ} (hd : start ≤ d)
    (hs : 0 ≤ second ∧ second < kSecondsPerDay) (h : s = secondsOf d second)
    (h0 : 0 ≤ s) (hend : s < endSecond) : 1970 ≤ d.year ∧ d.year < 10000 := by
  let epoch : Day := Day.first 1970 1 Day.january_pos Day.january_le
  let last : Day := Day.first 10000 1 Day.january_pos Day.january_le
  have hepoch : number epoch = kJulianDayOf1970_01_01 := by decide
  have hlast : number last = kJulianDayOf1970_01_01 + 2932897 := by decide
  have hnum : kJulianDayOf1970_01_01 ≤ number d ∧
      number d < kJulianDayOf1970_01_01 + 2932897 := by
    unfold secondsOf kSecondsPerDay endSecond at *
    omega
  constructor
  · by_contra hlt
    have hlt' : d < epoch := Day.lt_iff.2 (Or.inl (not_le.1 hlt))
    have := counts_number.lt_of_lt hd hlt'
    omega
  · by_contra hge
    have hle : last ≤ d := by
      rw [← not_lt, Day.lt_iff]
      have := d.month_pos
      have := d.day_pos
      simp only [last, Day.first]
      omega
    rcases hle.eq_or_lt with heq | hlt
    · have := congrArg number heq
      omega
    · have := counts_number.lt_of_lt (by decide) hlt
      omega

/-- What is printed of a time. -/
theorem fields_spec {t : ℤ} (h : InRange t) :
    ∃ d, start ≤ d ∧ Names (gmtime (t / kMicroSecondsPerSecond)) d ∧
      t / kMicroSecondsPerSecond =
        secondsOf d (gmtime (t / kMicroSecondsPerSecond)).secondOfDay ∧
      1970 ≤ d.year ∧ d.year < 10000 := by
  obtain ⟨h0, hend⟩ := second_bounds h
  have hfirst : firstSecond ≤ t / kMicroSecondsPerSecond := le_trans (by decide) h0
  obtain ⟨d, hd, -, hnames, hsec, -⟩ := gmtime_spec hfirst
  exact ⟨d, hd, hnames, hsec, year_bounds hd hnames.secondOfDay_bounds hsec h0 hend⟩

theorem fits_values {t : ℤ} (h : InRange t) : Fits fields (values t) := by
  obtain ⟨d, -, hnames, -, hyear⟩ := fields_spec h
  have := hnames.year
  have := hnames.mon
  have := hnames.mday
  have := hnames.hour
  have := hnames.min
  have := hnames.sec
  have := d.month_le
  have := d.day_le_31
  have hmicro : t % kMicroSecondsPerSecond < 1000000 := Int.emod_lt_of_pos t (by decide)
  unfold Fits fields values
  repeat' first | exact List.Forall₂.nil | refine List.Forall₂.cons ?_ ?_
  all_goals simp only [Nat.reducePow]; omega

/-- **The text is a line of numbers of fixed width.** -/
theorem toFormattedString_eq {t : ℤ} (h : InRange t) :
    toFormattedString t = render fields (values t) := by
  have htdiv : t.tdiv kMicroSecondsPerSecond = t / kMicroSecondsPerSecond :=
    Int.tdiv_eq_ediv_of_nonneg h.1
  have htmod : t.tmod kMicroSecondsPerSecond = t % kMicroSecondsPerSecond :=
    Int.tmod_eq_emod_of_nonneg h.1
  obtain ⟨d, -, hnames, -, hyear⟩ := fields_spec h
  have := hnames.mon
  have := hnames.mday
  have := hnames.hour
  have := hnames.min
  have := hnames.sec
  have := d.month_pos
  have := d.month_le
  have := d.day_pos
  have := d.day_le_31
  have hmicro : t % kMicroSecondsPerSecond < 1000000 := Int.emod_lt_of_pos t (by decide)
  have hmicro0 : 0 ≤ t % kMicroSecondsPerSecond := Int.emod_nonneg t (by decide)
  rw [toFormattedString, htdiv, htmod, formatTm,
    blankPadded_eq (w := 3) (by rw [hnames.year]; omega) (by rw [hnames.year]; omega),
    zeroPadded_eq (w := 6) (by decide) hmicro0 (by omega)]
  rw [zeroPadded_eq (by decide) (by omega) (by omega),
    zeroPadded_eq (by decide) (by omega) (by omega),
    zeroPadded_eq (by decide) (by omega) (by omega),
    zeroPadded_eq (by decide) (by omega) (by omega),
    zeroPadded_eq (by decide) (by omega) (by omega)]
  simp only [render, fields, values, List.append_assoc, List.cons_append, List.nil_append,
    List.append_nil]

/-- The order within a day. -/
theorem timeOfDay_lt {tm tm' : Tm} {d d' : Day} (hn : Names tm d) (hn' : Names tm' d') {u u' : ℤ}
    (h : tm.secondOfDay < tm'.secondOfDay ∨ tm.secondOfDay = tm'.secondOfDay ∧ u < u')
    (hu : 0 ≤ u) : tm.hour.toNat < tm'.hour.toNat ∨ tm.hour.toNat = tm'.hour.toNat ∧
      (tm.min.toNat < tm'.min.toNat ∨ tm.min.toNat = tm'.min.toNat ∧
        (tm.sec.toNat < tm'.sec.toNat ∨ tm.sec.toNat = tm'.sec.toNat ∧ u.toNat < u'.toNat)) := by
  have hhour := hn.hour
  have hhour' := hn'.hour
  have hmin := hn.min
  have hmin' := hn'.min
  have hs := hn.sec
  have hs' := hn'.sec
  unfold Tm.secondOfDay at h
  rcases lt_trichotomy tm.hour tm'.hour with hlt | heq | hgt
  · exact Or.inl (by omega)
  · refine Or.inr ⟨by rw [heq], ?_⟩
    rcases lt_trichotomy tm.min tm'.min with hlt | heq | hgt
    · exact Or.inl (by omega)
    · exact Or.inr ⟨by rw [heq], by omega⟩
    · omega
  · omega

/-- Later times have greater numbers. -/
theorem values_lt {t t' : ℤ} (ht : InRange t) (ht' : InRange t') (h : t < t') :
    values t < values t' := by
  obtain ⟨d, hd, hn, hsec, hyear⟩ := fields_spec ht
  obtain ⟨d', hd', hn', hsec', hyear'⟩ := fields_spec ht'
  have hbounds := hn.secondOfDay_bounds
  have hbounds' := hn'.secondOfDay_bounds
  have hle : t / kMicroSecondsPerSecond ≤ t' / kMicroSecondsPerSecond :=
    Int.ediv_le_ediv (by decide) h.le
  have hmicro : t / kMicroSecondsPerSecond = t' / kMicroSecondsPerSecond →
      t % kMicroSecondsPerSecond < t' % kMicroSecondsPerSecond := by
    unfold kMicroSecondsPerSecond
    omega
  have hmicro0 : 0 ≤ t % kMicroSecondsPerSecond := Int.emod_nonneg t (by decide)
  unfold values
  generalize gmtime (t / kMicroSecondsPerSecond) = tm at *
  generalize gmtime (t' / kMicroSecondsPerSecond) = tm' at *
  have hday : d ≤ d' := by
    rw [← not_lt]
    intro hlt
    have := counts_number.lt_of_lt hd' hlt
    unfold secondsOf kSecondsPerDay at *
    omega
  have hdate := hn.year
  have hdate' := hn'.year
  have hmon := hn.mon
  have hmon' := hn'.mon
  have hmday := hn.mday
  have hmday' := hn'.mday
  simp only [List.cons_lt_cons_iff, List.not_lt_nil, and_false, or_false]
  rcases hday.eq_or_lt with rfl | hlt
  · -- on one day the hours, minutes and seconds decide, and then the microseconds
    refine Or.inr ⟨by rw [hdate, hdate'], Or.inr ⟨by rw [hmon, hmon'],
      Or.inr ⟨by rw [hmday, hmday'], ?_⟩⟩⟩
    have hsame : tm.secondOfDay < tm'.secondOfDay ∨ tm.secondOfDay = tm'.secondOfDay ∧
        t % kMicroSecondsPerSecond < t' % kMicroSecondsPerSecond := by
      unfold secondsOf at hsec hsec'
      omega
    exact timeOfDay_lt hn hn' hsame hmicro0
  · have := d.month_pos
    have := d.day_pos
    rcases Day.lt_iff.1 hlt with hy | ⟨hy, hm | ⟨hm, hd⟩⟩
    · exact Or.inl (by omega)
    · exact Or.inr ⟨by omega, Or.inl (by omega)⟩
    · exact Or.inr ⟨by omega, Or.inr ⟨by omega, Or.inl (by omega)⟩⟩

/-- The texts of two times, with anything behind them. -/
theorem toFormattedString_lt {t t' : ℤ} (ht : InRange t) (ht' : InRange t') (h : t < t')
    (r r' : List Char) : toFormattedString t ++ r < toFormattedString t' ++ r' := by
  rw [toFormattedString_eq ht, toFormattedString_eq ht']
  exact append_lt (render_lt (fits_values ht) (fits_values ht') (values_lt ht ht' h))
    (by rw [length_render (fits_values ht), length_render (fits_values ht')]) r r'

theorem length_toFormattedString {t : ℤ} (h : InRange t) : (toFormattedString t).length = 24 := by
  rw [toFormattedString_eq h, length_render (fits_values h)]
  rfl

/-- **The texts are in the order of the times**, from the epoch to the end of the year 9999. -/
theorem toFormattedString_lt_iff {t t' : ℤ} (ht : InRange t) (ht' : InRange t') :
    toFormattedString t < toFormattedString t' ↔ t < t' := by
  have hlt : ∀ {u u' : ℤ}, InRange u → InRange u' → u < u' →
      toFormattedString u < toFormattedString u' := by
    intro u u' hu hu' h
    have := toFormattedString_lt hu hu' h [] []
    rwa [List.append_nil, List.append_nil] at this
  refine ⟨fun htext => ?_, hlt ht ht'⟩
  by_contra hge
  rcases (not_lt.1 hge).eq_or_lt with rfl | hgt
  · exact List.lt_irrefl _ htext
  · exact List.lt_asymm htext (hlt ht' ht hgt)

theorem toFormattedString_lt_iff_second :
    toFormattedString 999999 < toFormattedString 1000000 ↔ (999999 : ℤ) < 1000000 :=
  toFormattedString_lt_iff (by decide) (by decide)

example : toFormattedString 1330527600000123 = "20120229 15:00:00.000123".toList := by decide

end Timestamp
