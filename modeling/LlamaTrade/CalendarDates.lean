import Mathlib.Order.Monotone.Basic
import Mathlib.Tactic.IntervalCases

/-!
# Calendar dates

The dates of Python's `datetime` module: the proleptic Gregorian calendar, the ordinal of a date,
and the year and week of the ISO calendar. Day 1 is a Monday.
-/

namespace LlamaTrade

/-- `_is_leap`. -/
def isLeap (year : ℕ) : Bool := year % 4 = 0 ∧ (year % 100 ≠ 0 ∨ year % 400 = 0)

/-- `_days_before_year`. -/
def daysBeforeYear (year : ℕ) : ℕ :=
  (year - 1) * 365 + (year - 1) / 4 - (year - 1) / 100 + (year - 1) / 400

/-- `_days_in_month`. -/
def daysInMonth (year month : ℕ) : ℕ :=
  if month = 2 ∧ isLeap year then 29
  else [31, 28, 31, 30, 31, 30, 31, 31, 30, 31, 30, 31].getD (month - 1) 0

/-- `_days_before_month`. -/
def daysBeforeMonth (year month : ℕ) : ℕ :=
  [0, 31, 59, 90, 120, 151, 181, 212, 243, 273, 304, 334].getD (month - 1) 0 +
    if 2 < month ∧ isLeap year then 1 else 0

/-- `date`. -/
@[ext]
structure CalendarDate where
  year : ℕ
  month : ℕ
  day : ℕ
  year_pos : 0 < year
  month_pos : 0 < month
  month_le : month ≤ 12
  day_pos : 0 < day
  day_le : day ≤ daysInMonth year month
  deriving DecidableEq

namespace CalendarDate

/-- Dates are compared by year, month and day. -/
instance : LT CalendarDate where
  lt a b := a.year < b.year ∨ a.year = b.year ∧
    (a.month < b.month ∨ a.month = b.month ∧ a.day < b.day)

instance (a b : CalendarDate) : Decidable (a < b) := inferInstanceAs (Decidable (_ ∨ _))

instance : LE CalendarDate where
  le a b := a < b ∨ a = b

instance (a b : CalendarDate) : Decidable (a ≤ b) := inferInstanceAs (Decidable (_ ∨ _))

/-- `toordinal`. -/
def ordinal (d : CalendarDate) : ℤ :=
  (daysBeforeYear d.year + daysBeforeMonth d.year d.month + d.day : ℕ)

/-- The ordinal of the first of January. -/
def firstDay (year : ℕ) : ℤ := (daysBeforeYear year + 1 : ℕ)

/-- `_isoweek1monday`. -/
def isoWeek1Monday (year : ℕ) : ℤ :=
  let firstWeekday := (firstDay year + 6) % 7
  if firstWeekday > 3 then firstDay year - firstWeekday + 7 else firstDay year - firstWeekday

/-- `isocalendar()[:2]`. -/
def isoCalendar (d : CalendarDate) : ℕ × ℤ :=
  let week := (d.ordinal - isoWeek1Monday d.year) / 7
  if week < 0 then (d.year - 1, (d.ordinal - isoWeek1Monday (d.year - 1)) / 7 + 1)
  else if 52 ≤ week ∧ isoWeek1Monday (d.year + 1) ≤ d.ordinal then (d.year + 1, 1)
  else (d.year, week + 1)

/-! ## Ordinals -/

theorem firstDay_succ {year : ℕ} (h : 0 < year) :
    firstDay year + 365 ≤ firstDay (year + 1) ∧ firstDay (year + 1) ≤ firstDay year + 366 := by
  simp only [firstDay, daysBeforeYear]
  omega

theorem firstDay_succ_of_isLeap {year : ℕ} (h : 0 < year) :
    firstDay (year + 1) = firstDay year + if isLeap year then 366 else 365 := by
  obtain ⟨y, rfl⟩ : ∃ y, year = y + 1 := ⟨year - 1, by omega⟩
  have hcentury : y / 100 ≤ y / 4 := by omega
  have hfour : 100 ∣ y + 1 → 4 ∣ y + 1 := Dvd.dvd.trans (by decide)
  have hhundred : 400 ∣ y + 1 → 100 ∣ y + 1 := Dvd.dvd.trans (by decide)
  simp only [firstDay, daysBeforeYear, isLeap, Nat.add_sub_cancel, Nat.succ_div,
    ← Nat.dvd_iff_mod_eq_zero, decide_eq_true_eq]
  generalize y / 4 = q at *
  generalize y / 100 = c at *
  generalize y / 400 = k at *
  by_cases h4 : 4 ∣ y + 1 <;> by_cases h100 : 100 ∣ y + 1 <;> by_cases h400 : 400 ∣ y + 1 <;>
    simp only [h4, h100, h400, not_true_eq_false, imp_false, forall_const] at hfour hhundred <;>
    simp only [h4, h100, h400] <;> simp <;> omega

theorem firstDay_mono {year year' : ℕ} (h : year ≤ year') : firstDay year ≤ firstDay year' := by
  induction h with
  | refl => exact le_rfl
  | @step year' _ ih =>
    refine ih.trans ?_
    cases year' with
    | zero => decide
    | succ year' =>
      have hnext : firstDay (year' + 1) + 365 ≤ firstDay (year' + 1 + 1) :=
        (firstDay_succ year'.succ_pos).1
      exact (by omega : _ ≤ firstDay (year' + 1) + 365).trans hnext

/-- The months of a year follow one another. -/
theorem daysBeforeMonth_add (year : ℕ) {month month' : ℕ} (hpos : 0 < month) (hlt : month < month')
    (hle : month' ≤ 12) :
    daysBeforeMonth year month + daysInMonth year month ≤ daysBeforeMonth year month' := by
  have hmonth : month < 12 := hlt.trans_le hle
  cases hleap : isLeap year <;> interval_cases month <;> interval_cases month' <;>
    simp [daysBeforeMonth, daysInMonth, hleap]

theorem daysBeforeMonth_add_le (year : ℕ) {month : ℕ} (hpos : 0 < month) (hle : month ≤ 12) :
    daysBeforeMonth year month + daysInMonth year month ≤ if isLeap year then 366 else 365 := by
  cases hleap : isLeap year <;> interval_cases month <;>
    simp [daysBeforeMonth, daysInMonth, hleap]

theorem firstDay_le_ordinal (d : CalendarDate) : firstDay d.year ≤ d.ordinal := by
  have hday := d.day_pos
  simp only [firstDay, ordinal]
  omega

theorem ordinal_lt_firstDay (d : CalendarDate) : d.ordinal < firstDay (d.year + 1) := by
  have hmonth := daysBeforeMonth_add_le d.year d.month_pos d.month_le
  have hday := d.day_le
  rw [firstDay_succ_of_isLeap d.year_pos]
  simp only [firstDay, ordinal]
  split_ifs at hmonth ⊢ <;> omega

/-- The order of dates is that of their ordinals. -/
theorem ordinal_lt_of_lt {a b : CalendarDate} (h : a < b) : a.ordinal < b.ordinal := by
  obtain hyear | ⟨hyear, hmonth | ⟨hmonth, hday⟩⟩ := h
  · have hmono := firstDay_mono (Nat.succ_le_of_lt hyear)
    have ha := a.ordinal_lt_firstDay
    have hb := b.firstDay_le_ordinal
    exact (ha.trans_le hmono).trans_le hb
  · have hbefore := daysBeforeMonth_add a.year a.month_pos hmonth b.month_le
    have ha := a.day_le
    have hb := b.day_pos
    simp only [ordinal, ← hyear]
    omega
  · simp only [ordinal, ← hyear, ← hmonth]
    omega

theorem ordinal_le_of_le {a b : CalendarDate} (h : a ≤ b) : a.ordinal ≤ b.ordinal := by
  obtain hlt | rfl := h
  · exact (ordinal_lt_of_lt hlt).le
  · exact le_rfl

/-- The year does not go back, and within a year the month does not. -/
theorem year_month_of_le {a b : CalendarDate} (h : a ≤ b) :
    a.year < b.year ∨ a.year = b.year ∧ a.month ≤ b.month := by
  obtain (hyear | ⟨hyear, hmonth | ⟨hmonth, -⟩⟩) | rfl := h
  · exact .inl hyear
  · exact .inr ⟨hyear, hmonth.le⟩
  · exact .inr ⟨hyear, hmonth.le⟩
  · exact .inr ⟨rfl, le_rfl⟩

/-! ## Weeks -/

/-- The weeks from Monday to Sunday, in one sequence. -/
def weekNumber (d : CalendarDate) : ℤ := (d.ordinal - 1) / 7

theorem isoWeek1Monday_mod (year : ℕ) : isoWeek1Monday year % 7 = 1 := by
  simp only [isoWeek1Monday]
  split_ifs <;> omega

theorem isoWeek1Monday_bounds (year : ℕ) :
    firstDay year - 3 ≤ isoWeek1Monday year ∧ isoWeek1Monday year ≤ firstDay year + 3 := by
  simp only [isoWeek1Monday]
  split_ifs <;> omega

theorem isoWeek1Monday_succ {year : ℕ} (h : 0 < year) :
    isoWeek1Monday year + 364 ≤ isoWeek1Monday (year + 1) := by
  have hfirst := firstDay_succ h
  have hbounds := isoWeek1Monday_bounds year
  have hbounds' := isoWeek1Monday_bounds (year + 1)
  have hmod := isoWeek1Monday_mod year
  have hmod' := isoWeek1Monday_mod (year + 1)
  omega

theorem isoWeek1Monday_mono {year year' : ℕ} (h : year ≤ year') :
    isoWeek1Monday year ≤ isoWeek1Monday year' := by
  induction h with
  | refl => exact le_rfl
  | @step year' _ ih =>
    refine ih.trans ?_
    cases year' with
    | zero => decide
    | succ year' =>
      have hnext : isoWeek1Monday (year' + 1) + 364 ≤ isoWeek1Monday (year' + 1 + 1) :=
        isoWeek1Monday_succ year'.succ_pos
      exact (by omega : _ ≤ isoWeek1Monday (year' + 1) + 364).trans hnext

/-- The year of the ISO calendar is the one between whose first Mondays the date lies. -/
theorem isoCalendar_spec (d : CalendarDate) :
    isoWeek1Monday d.isoCalendar.1 ≤ d.ordinal ∧
      d.ordinal < isoWeek1Monday (d.isoCalendar.1 + 1) ∧
      d.isoCalendar.2 = (d.ordinal - isoWeek1Monday d.isoCalendar.1) / 7 + 1 := by
  have hlow := d.firstDay_le_ordinal
  have hhigh := d.ordinal_lt_firstDay
  have hbounds := isoWeek1Monday_bounds d.year
  have hnext := isoWeek1Monday_bounds (d.year + 1)
  have hsucc := isoWeek1Monday_succ d.year_pos
  have hpos := d.year_pos
  simp only [isoCalendar]
  generalize d.year = y at *
  split_ifs with hbefore hafter
  · -- The days before the first Monday belong to the last week of the year before.
    dsimp only
    obtain ⟨year, rfl⟩ : ∃ year, y = year + 1 := ⟨y - 1, by omega⟩
    rw [Nat.add_sub_cancel]
    cases year with
    | zero =>
      have hone : isoWeek1Monday (0 + 1) = 1 := by decide
      have hfirst : firstDay (0 + 1) = 1 := by decide
      omega
    | succ year =>
      have hprev := isoWeek1Monday_bounds (year + 1)
      have hfirst := firstDay_succ year.succ_pos
      simp only [Nat.succ_eq_add_one] at hfirst
      exact ⟨by omega, by omega, rfl⟩
  · dsimp only
    have hlater := isoWeek1Monday_succ y.succ_pos
    simp only [Nat.succ_eq_add_one] at hlater
    exact ⟨hafter.2, by omega, by omega⟩
  · dsimp only
    exact ⟨by omega, by omega, rfl⟩

/-- Two dates have one ISO year and week when they lie in one week. -/
theorem isoCalendar_eq_iff {a b : CalendarDate} :
    a.isoCalendar = b.isoCalendar ↔ a.weekNumber = b.weekNumber := by
  obtain ⟨halow, hahigh, haweek⟩ := a.isoCalendar_spec
  obtain ⟨hblow, hbhigh, hbweek⟩ := b.isoCalendar_spec
  have hamod := isoWeek1Monday_mod a.isoCalendar.1
  have hbmod := isoWeek1Monday_mod b.isoCalendar.1
  have hamod' := isoWeek1Monday_mod (a.isoCalendar.1 + 1)
  have hbmod' := isoWeek1Monday_mod (b.isoCalendar.1 + 1)
  unfold weekNumber
  constructor
  · intro h
    rw [h] at haweek halow hamod
    omega
  · intro h
    have hyear : a.isoCalendar.1 = b.isoCalendar.1 := by
      rcases Nat.lt_trichotomy a.isoCalendar.1 b.isoCalendar.1 with hlt | heq | hgt
      · have hmono := isoWeek1Monday_mono (Nat.succ_le_of_lt hlt)
        simp only [Nat.succ_eq_add_one] at hmono
        omega
      · exact heq
      · have hmono := isoWeek1Monday_mono (Nat.succ_le_of_lt hgt)
        simp only [Nat.succ_eq_add_one] at hmono
        omega
    refine Prod.ext hyear ?_
    rw [haweek, hbweek, hyear]
    rw [hyear] at hamod
    omega

end CalendarDate

end LlamaTrade
