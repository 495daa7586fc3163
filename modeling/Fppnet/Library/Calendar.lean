import Mathlib.Tactic

/-!
# The Gregorian calendar

The days of the proleptic Gregorian calendar in their order, each with its successor. A numbering of
the days from `d₀` on that goes up by one from each day to the next (`Counts`) is determined by its
value at `d₀`: it is strictly monotone (`Counts.lt_iff`), injective, and reaches every number from
there on (`Counts.exists_day`).
-/

namespace Calendar

/-- Every fourth year, but of the centuries only every fourth. -/
def IsLeap (y : ℤ) : Prop := y % 4 = 0 ∧ (y % 100 ≠ 0 ∨ y % 400 = 0)

instance (y : ℤ) : Decidable (IsLeap y) := inferInstanceAs (Decidable (_ ∧ _))

def daysInMonth (y m : ℤ) : ℤ :=
  if m = 2 then if IsLeap y then 29 else 28
  else if m = 4 ∨ m = 6 ∨ m = 9 ∨ m = 11 then 30
  else 31

theorem daysInMonth_pos (y m : ℤ) : 1 ≤ daysInMonth y m := by
  unfold daysInMonth
  split_ifs <;> decide

theorem daysInMonth_le (y m : ℤ) : daysInMonth y m ≤ 31 := by
  unfold daysInMonth
  split_ifs <;> decide

/-- A day of the calendar. -/
@[ext]
structure Day where
  year : ℤ
  month : ℤ
  day : ℤ
  month_pos : 1 ≤ month
  month_le : month ≤ 12
  day_pos : 1 ≤ day
  day_le : day ≤ daysInMonth year month
  deriving DecidableEq

namespace Day

/-- The place of a day among all that would exist if every month had 31 days. -/
def rank (d : Day) : ℤ := 372 * d.year + 31 * d.month + d.day

theorem day_le_31 (d : Day) : d.day ≤ 31 := d.day_le.trans (daysInMonth_le _ _)

theorem rank_injective : Function.Injective rank := by
  intro d d' h
  have hd := d.day_le_31
  have hd' := d'.day_le_31
  have := d.day_pos
  have := d'.day_pos
  have := d.month_pos
  have := d'.month_pos
  have := d.month_le
  have := d'.month_le
  simp only [rank] at h
  have hyear : d.year = d'.year := by omega
  have hmonth : d.month = d'.month := by omega
  exact Day.ext hyear hmonth (by omega)

instance : LinearOrder Day := LinearOrder.lift' rank rank_injective

theorem lt_def {d d' : Day} : d < d' ↔ d.rank < d'.rank := Iff.rfl

/-- The order is that of the years, then of the months, then of the days. -/
theorem lt_iff {d d' : Day} : d < d' ↔ d.year < d'.year ∨ d.year = d'.year ∧
    (d.month < d'.month ∨ d.month = d'.month ∧ d.day < d'.day) := by
  have hd := d.day_le_31
  have hd' := d'.day_le_31
  have := d.day_pos
  have := d'.day_pos
  have := d.month_pos
  have := d'.month_pos
  have := d.month_le
  have := d'.month_le
  rw [lt_def]
  simp only [rank]
  omega

/-- The first day of a month. -/
def first (y m : ℤ) (hpos : 1 ≤ m) (hle : m ≤ 12) : Day :=
  ⟨y, m, 1, hpos, hle, le_refl 1, daysInMonth_pos y m⟩

theorem january_pos : (1 : ℤ) ≤ 1 := le_refl 1

theorem january_le : (1 : ℤ) ≤ 12 := by decide

/-- The next day. -/
def succ (d : Day) : Day :=
  if hday : d.day < daysInMonth d.year d.month then
    ⟨d.year, d.month, d.day + 1, d.month_pos, d.month_le, by have := d.day_pos; omega, hday⟩
  else if hmonth : d.month < 12 then
    first d.year (d.month + 1) (by have := d.month_pos; omega) hmonth
  else first (d.year + 1) 1 january_pos january_le

/-- How the next day is written. -/
theorem succ_cases (d : Day) :
    (d.day < daysInMonth d.year d.month ∧
      d.succ.year = d.year ∧ d.succ.month = d.month ∧ d.succ.day = d.day + 1) ∨
    (d.day = daysInMonth d.year d.month ∧ d.month < 12 ∧
      d.succ.year = d.year ∧ d.succ.month = d.month + 1 ∧ d.succ.day = 1) ∨
    (d.day = 31 ∧ d.month = 12 ∧ d.succ.year = d.year + 1 ∧ d.succ.month = 1 ∧ d.succ.day = 1) := by
  have hle := d.day_le
  unfold succ
  split_ifs with hday hmonth
  · exact Or.inl ⟨hday, rfl, rfl, rfl⟩
  · exact Or.inr (Or.inl ⟨by omega, hmonth, rfl, rfl, rfl⟩)
  · have htwelve : d.month = 12 := by
      have := d.month_le
      omega
    rw [htwelve] at hday hle
    have hdec : daysInMonth d.year 12 = 31 := rfl
    exact Or.inr (Or.inr ⟨by omega, htwelve, rfl, rfl, rfl⟩)

theorem lt_succ (d : Day) : d < d.succ := by
  rw [lt_iff]
  rcases d.succ_cases with ⟨-, hy, hm, hd⟩ | ⟨-, -, hy, hm, hd⟩ | ⟨-, -, hy, hm, hd⟩ <;> omega

/-- There is no day between a day and the next. -/
theorem succ_le_of_lt {d d' : Day} (h : d < d') : d.succ ≤ d' := by
  rw [← not_lt]
  intro hlt
  have hd'31 := d'.day_le_31
  have hd'day := d'.day_le
  have := d'.day_pos
  have := d'.month_pos
  have := d'.month_le
  have := d.month_le
  rw [lt_iff] at h hlt
  rcases d.succ_cases with ⟨-, hy, hm, hd⟩ | ⟨hlast, -, hy, hm, hd⟩ |
    ⟨hlast, hdec, hy, hm, hd⟩
  · omega
  · rw [hy, hm, hd] at hlt
    by_cases hsame : d'.year = d.year ∧ d'.month = d.month
    · rw [hsame.1, hsame.2] at hd'day
      omega
    · omega
  · omega

end Day

/-! ### Numberings -/

/-- From `d₀` on, `number` goes up by one from each day to the next. -/
def Counts (d₀ : Day) (number : Day → ℤ) : Prop :=
  ∀ d, d₀ ≤ d → number d.succ = number d + 1

namespace Counts

variable {d₀ d d' : Day} {number : Day → ℤ}

/-- The number of a later day is larger. -/
theorem lt_of_lt (h : Counts d₀ number) (hd : d₀ ≤ d) (hlt : d < d') : number d < number d' := by
  -- by induction on how far the days are apart, measured by their ranks
  obtain ⟨n, hn⟩ : ∃ n : ℕ, d'.rank - d.rank ≤ n := ⟨(d'.rank - d.rank).toNat, Int.self_le_toNat _⟩
  induction n generalizing d with
  | zero =>
    rw [Day.lt_def] at hlt
    push_cast at hn
    omega
  | succ n ih =>
    have hcount := h d hd
    have hsucc := d.lt_succ
    rcases (Day.succ_le_of_lt hlt).eq_or_lt with heq | hlt'
    · rw [← heq]
      omega
    · have hlt'' := ih (hd.trans hsucc.le) hlt' (by
        rw [Day.lt_def] at hsucc; push_cast at hn; omega)
      omega

/-- The numbers are in the order of the days. -/
theorem lt_iff (h : Counts d₀ number) (hd : d₀ ≤ d) (hd' : d₀ ≤ d') :
    number d < number d' ↔ d < d' := by
  constructor
  · intro hlt
    rcases lt_trichotomy d d' with hlt' | heq | hlt'
    · exact hlt'
    · rw [heq] at hlt
      exact absurd hlt (lt_irrefl _)
    · exact absurd (h.lt_of_lt hd' hlt') hlt.asymm
  · exact h.lt_of_lt hd

theorem injOn (h : Counts d₀ number) (hd : d₀ ≤ d) (hd' : d₀ ≤ d') (heq : number d = number d') :
    d = d' := by
  by_contra hne
  rcases lt_or_gt_of_ne hne with hlt | hlt
  · exact (h.lt_of_lt hd hlt).ne heq
  · exact (h.lt_of_lt hd' hlt).ne heq.symm

/-- Every number from that of `d₀` on is the number of a day. -/
theorem exists_day (h : Counts d₀ number) {n : ℤ} (hn : number d₀ ≤ n) :
    ∃ d, d₀ ≤ d ∧ number d = n := by
  induction n, hn using Int.leInduction with
  | base => exact ⟨d₀, le_refl _, rfl⟩
  | succ n _ ih =>
    obtain ⟨d, hd, hnum⟩ := ih
    exact ⟨d.succ, hd.trans d.lt_succ.le, by rw [h d hd, hnum]⟩

end Counts

end Calendar
