import LlamaTrade.CalendarDates

/-!
# The market calendar

The trading days of `market_calendar.py`: weekends, the holidays of a year and its half days, and
the status of the market at an instant. Days are the ordinals of their dates.
-/

namespace LlamaTrade

/-- `date(year, month, day).toordinal()`. -/
def dayNumber (year month day : ℕ) : ℕ :=
  daysBeforeYear year + daysBeforeMonth year month + day

/-- `weekday`, with Monday as 0. -/
def weekdayOf (day : ℕ) : ℕ := (day + 6) % 7

/-- The year of a day (`_ord2ymd`). -/
def yearOf (day : ℕ) : ℕ :=
  let n400 := (day - 1) / 146097
  let rest := (day - 1) % 146097
  let n100 := rest / 36524
  let rest := rest % 36524
  let n4 := rest / 1461
  let n1 := rest % 1461 / 365
  let year := n400 * 400 + 1 + n100 * 100 + n4 * 4 + n1
  if n1 = 4 ∨ n100 = 4 then year - 1 else year

/-- `_nth_weekday`. -/
def nthWeekday (year month weekday n : ℕ) : ℕ :=
  let first := dayNumber year month 1
  let offset := (weekday + 7 - weekdayOf first) % 7
  first + offset + 7 * (n - 1)

/-- `_last_weekday`. -/
def lastWeekday (year month weekday : ℕ) : ℕ :=
  let nextMonth := if month = 12 then dayNumber (year + 1) 1 1 else dayNumber year (month + 1) 1
  let last := nextMonth - 1
  let offset := (weekdayOf last + 7 - weekday) % 7
  last - offset

/-- `_observed`. -/
def observed (holiday : ℕ) : ℕ :=
  if weekdayOf holiday = 5 then holiday - 1
  else if weekdayOf holiday = 6 then holiday + 1
  else holiday

/-- `_new_year_observed`. -/
def newYearObserved (year : ℕ) : Option ℕ :=
  let day := dayNumber year 1 1
  if weekdayOf day = 5 then none
  else if weekdayOf day = 6 then some (day + 1)
  else some day

/-- `_easter`. -/
def easter (year : ℕ) : ℕ :=
  let a := year % 19
  let b := year / 100
  let c := year % 100
  let d := b / 4
  let e := b % 4
  let f := (b + 8) / 25
  let g := (b - f + 1) / 3
  let h := (19 * a + b - d - g + 15) % 30
  let i := c / 4
  let k := c % 4
  let m := (a + 11 * h + 22 * ((32 + 2 * e + 2 * i - h - k) % 7)) / 451
  let ell := (32 + 2 * e + 2 * i - h - k) % 7
  let month := (h + ell + 114 - 7 * m) / 31
  let day := (h + ell + 114 - 7 * m) % 31 + 1
  dayNumber year month day

/-- `market_holidays`. -/
def marketHolidays (year : ℕ) : List ℕ :=
  (newYearObserved year).toList ++
    [nthWeekday year 1 0 3, nthWeekday year 2 0 3, easter year - 2, lastWeekday year 5 0] ++
    (if 2022 ≤ year then [observed (dayNumber year 6 19)] else []) ++
    [observed (dayNumber year 7 4), nthWeekday year 9 0 1, nthWeekday year 11 3 4,
      observed (dayNumber year 12 25)]

/-- `early_close_days`. -/
def earlyCloseDays (year : ℕ) : List ℕ :=
  let christmasEve := dayNumber year 12 24
  let july3 := dayNumber year 7 3
  let july4 := dayNumber year 7 4
  let candidates := [nthWeekday year 11 3 4 + 1] ++
    (if weekdayOf christmasEve < 5 then [christmasEve] else []) ++
    (if weekdayOf july3 < 5 ∧ weekdayOf july4 < 5 then [july3] else [])
  candidates.filter fun day => day ∉ marketHolidays year

/-- `_is_trading_day`. -/
def isTradingDay (day : ℕ) : Bool :=
  weekdayOf day < 5 ∧ day ∉ marketHolidays (yearOf day)

/-! ## Years -/

/-- The days before a year, by the cycles of the calendar. -/
theorem daysBeforeYear_cycles (n400 n100 n4 n1 : ℕ) (h100 : n100 < 4) (h4 : n4 < 25) (h1 : n1 < 4) :
    daysBeforeYear (400 * n400 + 100 * n100 + 4 * n4 + n1 + 1) =
      146097 * n400 + 36524 * n100 + 1461 * n4 + 365 * n1 := by
  have hfour : (400 * n400 + 100 * n100 + 4 * n4 + n1) / 4 = 100 * n400 + 25 * n100 + n4 := by omega
  have hcentury : (400 * n400 + 100 * n100 + 4 * n4 + n1) / 100 = 4 * n400 + n100 := by omega
  have hlong : (400 * n400 + 100 * n100 + 4 * n4 + n1) / 400 = n400 := by omega
  rw [daysBeforeYear, Nat.add_sub_cancel, hfour, hcentury, hlong]
  omega

/-- The cycles of a day: its year has 366 days only where its cycles end. -/
theorem yearOf_cycles {day : ℕ} (h : 0 < day) :
    ∃ n400 n100 n4 n1, n100 < 4 ∧ n4 < 25 ∧ n1 < 4 ∧
      yearOf day = 400 * n400 + 100 * n100 + 4 * n4 + n1 + 1 ∧
      146097 * n400 + 36524 * n100 + 1461 * n4 + 365 * n1 < day ∧
      day ≤ 146097 * n400 + 36524 * n100 + 1461 * n4 + 365 * n1 +
        if n1 = 3 ∧ (n4 < 24 ∨ n100 = 3) then 366 else 365 := by
  have hsplit := Nat.div_add_mod (day - 1) 146097
  have hrest := Nat.mod_lt (day - 1) (by norm_num : 0 < 146097)
  unfold yearOf
  generalize (day - 1) / 146097 = n400 at *
  generalize (day - 1) % 146097 = rest at *
  dsimp only
  by_cases h100 : rest / 36524 = 4
  · -- The last day of 400 years.
    refine ⟨n400, 3, 24, 3, by norm_num, by norm_num, by norm_num, ?_, by omega, ?_⟩
    · rw [if_pos (.inr h100)]
      omega
    · rw [if_pos (by decide)]
      omega
  · by_cases h1 : rest % 36524 % 1461 / 365 = 4
    · -- The last day of four years.
      refine ⟨n400, rest / 36524, rest % 36524 / 1461, 3, by omega, by omega, by norm_num, ?_,
        by omega, ?_⟩
      · rw [if_pos (.inl h1)]
        omega
      · rw [if_pos ⟨rfl, by omega⟩]
        omega
    · refine ⟨n400, rest / 36524, rest % 36524 / 1461, rest % 36524 % 1461 / 365, by omega, by omega,
        by omega, ?_, by omega, ?_⟩
      · rw [if_neg (by omega)]
        omega
      · split_ifs <;> omega

theorem yearOf_spec {day : ℕ} (h : 0 < day) :
    daysBeforeYear (yearOf day) < day ∧ day ≤ daysBeforeYear (yearOf day + 1) := by
  obtain ⟨n400, n100, n4, n1, h100, h4, h1, hyear, hafter, hbefore⟩ := yearOf_cycles h
  rw [hyear]
  refine ⟨(daysBeforeYear_cycles _ _ _ _ h100 h4 h1).trans_lt hafter, hbefore.trans ?_⟩
  by_cases hn1 : n1 = 3
  · by_cases hn4 : n4 = 24
    · by_cases hn100 : n100 = 3
      · have hnext := daysBeforeYear_cycles (n400 + 1) 0 0 0 (by norm_num) (by norm_num)
          (by norm_num)
        rw [show 400 * n400 + 100 * n100 + 4 * n4 + n1 + 1 + 1 =
          400 * (n400 + 1) + 100 * 0 + 4 * 0 + 0 + 1 by omega, hnext]
        split_ifs <;> omega
      · have hnext := daysBeforeYear_cycles n400 (n100 + 1) 0 0 (by omega) (by norm_num)
          (by norm_num)
        rw [show 400 * n400 + 100 * n100 + 4 * n4 + n1 + 1 + 1 =
          400 * n400 + 100 * (n100 + 1) + 4 * 0 + 0 + 1 by omega, hnext]
        split_ifs <;> omega
    · have hnext := daysBeforeYear_cycles n400 n100 (n4 + 1) 0 h100 (by omega) (by norm_num)
      rw [show 400 * n400 + 100 * n100 + 4 * n4 + n1 + 1 + 1 =
        400 * n400 + 100 * n100 + 4 * (n4 + 1) + 0 + 1 by omega, hnext]
      split_ifs <;> omega
  · have hnext := daysBeforeYear_cycles n400 n100 n4 (n1 + 1) h100 h4 (by omega)
    rw [show 400 * n400 + 100 * n100 + 4 * n4 + n1 + 1 + 1 =
      400 * n400 + 100 * n100 + 4 * n4 + (n1 + 1) + 1 by omega, hnext]
    split_ifs <;> omega

end LlamaTrade
