import LlamaTrade.MarketCalendar
import Mathlib.Data.Finset.Max
import Mathlib.Order.Interval.Finset.Nat
import Mathlib.Tactic.Linarith

/-!
# Warm-up windows

The calendar days that a backtest adds before its start (`warmup_padding_days`) have enough trading
days. The holidays are indexed in their order, ten to a year; they are so far apart that `k` of them
need at least `21 * k - 47` days. With five weekdays out of seven days that leaves `n` trading days
in the padding for `n` daily bars.
-/

namespace LlamaTrade

/-- `_BARS_PER_TRADING_DAY`. -/
def barsPerTradingDay (timeframe : String) : ℕ :=
  ([("1Min", 390), ("5Min", 78), ("15Min", 26), ("30Min", 13), ("1H", 7), ("1Hour", 7),
    ("4H", 2)].lookup timeframe).getD 390

/-- `warmup_padding_days`. -/
def warmupPaddingDays (timeframe : String) (minBars : ℕ) : ℕ :=
  if minBars = 0 then 0
  else
    let tradingDaysNeeded :=
      if timeframe = "1W" then minBars * 5
      else if timeframe = "1D" ∨ timeframe = "1d" then minBars
      else (minBars + barsPerTradingDay timeframe - 1) / barsPerTradingDay timeframe
    tradingDaysNeeded * 3 / 2 + 5

/-- The days from the start less the padding up to the start, if there is such a date. -/
def warmupWindow (timeframe : String) (start : CalendarDate) (minBars : ℕ) : Option (Finset ℕ) :=
  let startDay := dayNumber start.year start.month start.day
  let padding := warmupPaddingDays timeframe minBars
  if padding < startDay then some (Finset.Ico (startDay - padding) startDay) else none

/-! ## Sparse sequences -/

/-- Of a sequence that gains at least `rate` in each step, up to `slack` in all, only so many values
lie in an interval. -/
theorem card_le_of_sparse {σ : ℕ → ℕ} {rate slack low high : ℕ}
    (hσ : ∀ i j, i ≤ j → σ i + rate * (j - i) ≤ σ j + slack) {values : Finset ℕ}
    (hvalues : ∀ v ∈ values, low ≤ v ∧ v < high ∧ ∃ i, σ i = v) (hlow : low ≤ high) :
    rate * values.card + low ≤ high + slack + rate := by
  have hindex : ∀ v : values, ∃ i, σ i = v := fun v => (hvalues v v.2).2.2
  choose index hσindex using hindex
  obtain hempty | ⟨v, hv⟩ := values.eq_empty_or_nonempty
  · simp only [hempty, Finset.card_empty, Nat.mul_zero]
    omega
  · let indices := Finset.univ.image index
    have hcard : indices.card = values.card := by
      rw [Finset.card_image_of_injective, Finset.card_univ, Fintype.card_coe]
      intro v w hvw
      exact Subtype.ext (by rw [← hσindex v, ← hσindex w, hvw])
    have hbounds : ∀ i ∈ indices, low ≤ σ i ∧ σ i < high := by
      intro i hi
      obtain ⟨v, -, rfl⟩ := Finset.mem_image.mp hi
      rw [hσindex]
      exact ⟨(hvalues v v.2).1, (hvalues v v.2).2.1⟩
    have hnonempty : indices.Nonempty := ⟨index ⟨v, hv⟩, Finset.mem_image_of_mem _ (Finset.mem_univ _)⟩
    have hfirst := hbounds _ (indices.min'_mem hnonempty)
    have hlast := hbounds _ (indices.max'_mem hnonempty)
    have hspan := hσ _ _ (indices.min'_le _ (indices.max'_mem hnonempty))
    have hsub : indices ⊆ Finset.Icc (indices.min' hnonempty) (indices.max' hnonempty) :=
      fun i hi => Finset.mem_Icc.mpr ⟨indices.min'_le i hi, indices.le_max' i hi⟩
    have hcount := Finset.card_le_card hsub
    rw [Nat.card_Icc] at hcount
    have hmul : rate * indices.card ≤
        rate * (indices.max' hnonempty - indices.min' hnonempty) + rate := by
      rw [← Nat.mul_succ]
      exact Nat.mul_le_mul_left _ (by omega)
    rw [← hcard]
    omega

/-! ## Holidays -/

/-- The holidays of a year in their order, with a place for those that are not observed. -/
def holidaySlot (year : ℕ) : ℕ → ℕ
  | 0 => (newYearObserved year).getD (dayNumber year 1 1)
  | 1 => nthWeekday year 1 0 3
  | 2 => nthWeekday year 2 0 3
  | 3 => easter year - 2
  | 4 => lastWeekday year 5 0
  | 5 => observed (dayNumber year 6 19)
  | 6 => observed (dayNumber year 7 4)
  | 7 => nthWeekday year 9 0 1
  | 8 => nthWeekday year 11 3 4
  | _ => observed (dayNumber year 12 25)

theorem exists_slot {year day : ℕ} (h : day ∈ marketHolidays year) :
    ∃ j < 10, day = holidaySlot year j := by
  simp only [marketHolidays, List.mem_append, List.mem_cons, List.not_mem_nil, or_false,
    Option.mem_toList] at h
  obtain ((hnew | h | h | h | h) | hjune) | h | h | h | h := h
  · exact ⟨0, by norm_num, by rw [holidaySlot, hnew]; rfl⟩
  · exact ⟨1, by norm_num, h⟩
  · exact ⟨2, by norm_num, h⟩
  · exact ⟨3, by norm_num, h⟩
  · exact ⟨4, by norm_num, h⟩
  · split at hjune
    · exact ⟨5, by norm_num, List.mem_singleton.mp hjune⟩
    · exact absurd hjune List.not_mem_nil
  · exact ⟨6, by norm_num, h⟩
  · exact ⟨7, by norm_num, h⟩
  · exact ⟨8, by norm_num, h⟩
  · exact ⟨9, by norm_num, h⟩

theorem nthWeekday_bounds (year month weekday : ℕ) {n : ℕ} (hn : 0 < n) :
    dayNumber year month (7 * n - 6) ≤ nthWeekday year month weekday n ∧
      nthWeekday year month weekday n ≤ dayNumber year month (7 * n) := by
  simp only [nthWeekday, dayNumber]
  omega

theorem observed_bounds (holiday : ℕ) : holiday - 1 ≤ observed holiday ∧ observed holiday ≤ holiday + 1 := by
  unfold observed
  split_ifs <;> omega

theorem easter_bounds (year : ℕ) :
    dayNumber year 3 15 ≤ easter year ∧ easter year ≤ dayNumber year 4 26 := by
  dsimp only [easter]
  generalize hh : (19 * (year % 19) + year / 100 - year / 100 / 4 -
    (year / 100 - (year / 100 + 8) / 25 + 1) / 3 + 15) % 30 = h
  have hh30 : h < 30 := hh ▸ Nat.mod_lt _ (by norm_num)
  generalize hell : (32 + 2 * (year / 100 % 4) + 2 * (year % 100 / 4) - h - year % 100 % 4) % 7 = ell
  have hell7 : ell < 7 := hell ▸ Nat.mod_lt _ (by norm_num)
  generalize hm : (year % 19 + 11 * h + 22 * ell) / 451 = m
  have hm1 : m ≤ 1 := by omega
  -- Late dates are moved back by a week.
  have hlate : h + ell + 114 - 7 * m ≤ 149 := by omega
  have hearly : 107 ≤ h + ell + 114 - 7 * m := by omega
  generalize h + ell + 114 - 7 * m = e at hlate hearly
  have hmonth : e / 31 = 3 ∨ e / 31 = 4 := by omega
  obtain hmonth | hmonth := hmonth
  all_goals
    rw [hmonth]
    cases hleap : isLeap year <;> simp [dayNumber, daysBeforeMonth, hleap] <;> omega

/-- The first and the last day of the year on which each holiday can be. -/
def slotRange (j : ℕ) : ℕ × ℕ :=
  [(1, 2), (15, 21), (46, 52), (72, 115), (145, 152), (169, 172), (184, 187), (244, 251),
    (326, 333), (358, 361)].getD j (0, 0)

theorem daysBeforeMonth_bounds (year : ℕ) :
    daysBeforeMonth year 1 = 0 ∧ daysBeforeMonth year 2 = 31 ∧
      (120 ≤ daysBeforeMonth year 5 ∧ daysBeforeMonth year 5 ≤ 121) ∧
      (151 ≤ daysBeforeMonth year 6 ∧ daysBeforeMonth year 6 ≤ 152) ∧
      (181 ≤ daysBeforeMonth year 7 ∧ daysBeforeMonth year 7 ≤ 182) ∧
      (243 ≤ daysBeforeMonth year 9 ∧ daysBeforeMonth year 9 ≤ 244) ∧
      (304 ≤ daysBeforeMonth year 11 ∧ daysBeforeMonth year 11 ≤ 305) ∧
      334 ≤ daysBeforeMonth year 12 ∧ daysBeforeMonth year 12 ≤ 335 := by
  cases hleap : isLeap year <;> simp [daysBeforeMonth, hleap]

theorem slot_bounds (year : ℕ) {j : ℕ} (hj : j < 10) :
    daysBeforeYear year + (slotRange j).1 ≤ holidaySlot year j ∧
      holidaySlot year j ≤ daysBeforeYear year + (slotRange j).2 := by
  have hnew : dayNumber year 1 1 ≤ (newYearObserved year).getD (dayNumber year 1 1) ∧
      (newYearObserved year).getD (dayNumber year 1 1) ≤ dayNumber year 1 2 := by
    dsimp only [newYearObserved]
    split_ifs <;> simp [dayNumber]
  have hmartin := nthWeekday_bounds year 1 0 (by norm_num : 0 < 3)
  have hwashington := nthWeekday_bounds year 2 0 (by norm_num : 0 < 3)
  have hfriday : daysBeforeYear year + 74 ≤ easter year ∧ easter year ≤ daysBeforeYear year + 117 := by
    have heaster := easter_bounds year
    cases hleap : isLeap year <;> simp [dayNumber, daysBeforeMonth, hleap] at heaster <;> omega
  have hmemorial : dayNumber year 5 25 ≤ lastWeekday year 5 0 ∧
      lastWeekday year 5 0 ≤ dayNumber year 5 31 := by
    cases hleap : isLeap year <;> simp [lastWeekday, dayNumber, daysBeforeMonth, hleap] <;> omega
  have hjune := observed_bounds (dayNumber year 6 19)
  have hjuly := observed_bounds (dayNumber year 7 4)
  have hlabor := nthWeekday_bounds year 9 0 (by norm_num : 0 < 1)
  have hthanks := nthWeekday_bounds year 11 3 (by norm_num : 0 < 4)
  have hchristmas := observed_bounds (dayNumber year 12 25)
  have hmonths := daysBeforeMonth_bounds year
  interval_cases j
  · simp only [dayNumber] at hnew
    simp only [slotRange, holidaySlot, List.getD_cons_zero, dayNumber]
    omega
  · simp only [dayNumber] at hmartin
    simp only [slotRange, holidaySlot, List.getD_cons_zero, List.getD_cons_succ]
    omega
  · simp only [dayNumber] at hwashington
    simp only [slotRange, holidaySlot, List.getD_cons_zero, List.getD_cons_succ]
    omega
  · simp only [slotRange, holidaySlot, List.getD_cons_zero, List.getD_cons_succ]
    omega
  · simp only [dayNumber] at hmemorial
    simp only [slotRange, holidaySlot, List.getD_cons_zero, List.getD_cons_succ]
    omega
  · simp only [slotRange, holidaySlot, List.getD_cons_zero, List.getD_cons_succ]
    simp only [dayNumber] at hjune ⊢
    omega
  · simp only [slotRange, holidaySlot, List.getD_cons_zero, List.getD_cons_succ]
    simp only [dayNumber] at hjuly ⊢
    omega
  · simp only [dayNumber] at hlabor
    simp only [slotRange, holidaySlot, List.getD_cons_zero, List.getD_cons_succ]
    omega
  · simp only [dayNumber] at hthanks
    simp only [slotRange, holidaySlot, List.getD_cons_zero, List.getD_cons_succ]
    omega
  · simp only [slotRange, holidaySlot, List.getD_cons_zero, List.getD_cons_succ]
    simp only [dayNumber] at hchristmas ⊢
    omega

/-- All holidays from year 1 on, in their order. -/
def holidayAt (i : ℕ) : ℕ := holidaySlot (i / 10 + 1) (i % 10)

theorem daysBeforeYear_add (year count : ℕ) :
    daysBeforeYear (year + 1) + 365 * count ≤ daysBeforeYear (year + 1 + count) := by
  induction count with
  | zero => exact le_rfl
  | succ count ih =>
    have hnext := (CalendarDate.firstDay_succ (Nat.succ_pos (year + count))).1
    simp only [CalendarDate.firstDay, Nat.succ_eq_add_one] at hnext
    rw [show year + 1 + (count + 1) = year + count + 1 + 1 by omega]
    rw [show year + 1 + count = year + count + 1 by omega] at ih
    omega

/-- The holidays of one year, and those of one year and a later one, keep their distances. -/
theorem slotRange_sparse : ∀ u < 10, ∀ v < 10,
    (u < v → (slotRange u).2 + 21 * v ≤ (slotRange v).1 + 21 * u + 26) ∧
      (slotRange u).2 + 21 * v ≤ (slotRange v).1 + 21 * u + 26 + 155 := by
  decide

theorem holidayAt_sparse (i j : ℕ) (hij : i ≤ j) :
    holidayAt i + 21 * (j - i) ≤ holidayAt j + 26 := by
  obtain rfl | hne := eq_or_ne i j
  · omega
  have hu : i % 10 < 10 := Nat.mod_lt _ (by norm_num)
  have hv : j % 10 < 10 := Nat.mod_lt _ (by norm_num)
  have hi := (slot_bounds (i / 10 + 1) hu).2
  have hj := (slot_bounds (j / 10 + 1) hv).1
  have hyears := daysBeforeYear_add (i / 10) (j / 10 - i / 10)
  have hdiv : i / 10 ≤ j / 10 := Nat.div_le_div_right hij
  rw [show i / 10 + 1 + (j / 10 - i / 10) = j / 10 + 1 by omega] at hyears
  obtain ⟨hsame, hlater⟩ := slotRange_sparse (i % 10) hu (j % 10) hv
  unfold holidayAt
  by_cases hyear : i / 10 = j / 10
  · have hslots := hsame (by omega)
    omega
  · omega

theorem exists_holidayAt {day : ℕ} (hpos : 0 < day) (h : day ∈ marketHolidays (yearOf day)) :
    ∃ i, holidayAt i = day := by
  obtain ⟨j, hj, hday⟩ := exists_slot h
  have hyear : 0 < yearOf day := by
    rw [Nat.pos_iff_ne_zero]
    intro hzero
    have hspec := (yearOf_spec hpos).2
    rw [hzero] at hspec
    simp [daysBeforeYear] at hspec
    omega
  refine ⟨10 * (yearOf day - 1) + j, ?_⟩
  rw [holidayAt, show (10 * (yearOf day - 1) + j) / 10 + 1 = yearOf day by omega,
    show (10 * (yearOf day - 1) + j) % 10 = j by omega]
  exact hday.symm

/-! ## Trading days in a window -/

/-- The weekdays before a day, up to a constant. -/
def weekdaysBefore (day : ℕ) : ℕ := 5 * ((day + 6) / 7) + min ((day + 6) % 7) 5

theorem card_weekdays (first length : ℕ) :
    ((Finset.Ico first (first + length)).filter fun day => weekdayOf day < 5).card +
      weekdaysBefore first = weekdaysBefore (first + length) := by
  induction length with
  | zero => simp
  | succ length ih =>
    rw [← Nat.add_assoc, Nat.Ico_succ_right_eq_insert_Ico (Nat.le_add_right _ _),
      Finset.filter_insert]
    unfold weekdayOf weekdaysBefore at *
    split_ifs with hweekday
    · rw [Finset.card_insert_of_notMem (by simp)]
      omega
    · omega

/-- At least two thirds of the days, less a constant, are trading days. -/
theorem card_tradingDays {first : ℕ} (hfirst : 0 < first) (length : ℕ) :
    2 * length ≤
      3 * ((Finset.Ico first (first + length)).filter fun day => isTradingDay day).card + 11 := by
  let window := Finset.Ico first (first + length)
  let weekdays := window.filter fun day => weekdayOf day < 5
  let holidays := window.filter fun day => day ∈ marketHolidays (yearOf day)
  have hweekdays := card_weekdays first length
  have hholidays : 21 * holidays.card + first ≤ first + length + 26 + 21 := by
    refine card_le_of_sparse holidayAt_sparse (fun day hday => ?_) (Nat.le_add_right _ _)
    obtain ⟨hwindow, hholiday⟩ := Finset.mem_filter.mp hday
    obtain ⟨hlow, hhigh⟩ := Finset.mem_Ico.mp hwindow
    exact ⟨hlow, hhigh, exists_holidayAt (hfirst.trans_le hlow) hholiday⟩
  have hsub : weekdays \ holidays ⊆ window.filter fun day => isTradingDay day := by
    intro day hday
    obtain ⟨hweekday, hholiday⟩ := Finset.mem_sdiff.mp hday
    obtain ⟨hwindow, hweekday⟩ := Finset.mem_filter.mp hweekday
    refine Finset.mem_filter.mpr ⟨hwindow, ?_⟩
    simp only [isTradingDay, decide_eq_true_eq]
    exact ⟨hweekday, fun hmem => hholiday (Finset.mem_filter.mpr ⟨hwindow, hmem⟩)⟩
  have hcard := Finset.card_le_card hsub
  have hdiff : weekdays.card - holidays.card ≤ (weekdays \ holidays).card :=
    Finset.le_card_sdiff holidays weekdays
  have hseven : 5 * length ≤ 7 * weekdays.card + 10 := by
    unfold weekdaysBefore at hweekdays
    change 5 * length ≤ 7 * (Finset.card (Finset.filter _ (Finset.Ico first (first + length)))) + 10
    omega
  change 2 * length ≤ 3 * (window.filter fun day => isTradingDay day).card + 11
  omega

/-- The window before the start of a backtest has a trading day for each daily bar that the warm-up
needs. -/
theorem warmup_covers (start : CalendarDate) (n : ℕ) {window : Finset ℕ}
    (hwindow : warmupWindow "1D" start n = some window) :
    n ≤ (window.filter fun day => isTradingDay day).card := by
  simp only [warmupWindow, Option.ite_none_right_eq_some, Option.some.injEq] at hwindow
  obtain ⟨hpadding, rfl⟩ := hwindow
  generalize dayNumber start.year start.month start.day = startDay at *
  have hcard := card_tradingDays (Nat.sub_pos_of_lt hpadding) (warmupPaddingDays "1D" n)
  rw [Nat.sub_add_cancel hpadding.le] at hcard
  obtain rfl | hn := Nat.eq_zero_or_pos n
  · exact Nat.zero_le _
  · have hlength : warmupPaddingDays "1D" n = n * 3 / 2 + 5 := by
      simp [warmupPaddingDays, Nat.ne_of_gt hn]
    omega

/-- Three bars before Tuesday 3 January 2023. -/
theorem warmup_covers_three : ∃ today : CalendarDate, today.year = 2023 ∧ ∃ window,
    warmupWindow "1D" today 3 = some window ∧
      3 ≤ (window.filter fun day => isTradingDay day).card := by
  have hpadding : warmupPaddingDays "1D" 3 < dayNumber 2023 1 3 := by
    norm_num +decide [warmupPaddingDays, dayNumber, daysBeforeYear, daysBeforeMonth]
  let today : CalendarDate := ⟨2023, 1, 3, by decide, by decide, by decide, by decide, by decide⟩
  obtain ⟨window, hwindow⟩ : ∃ window, warmupWindow "1D" today 3 = some window := by
    dsimp only [warmupWindow, today]
    rw [if_pos hpadding]
    exact ⟨_, rfl⟩
  exact ⟨today, rfl, window, hwindow, warmup_covers _ 3 hwindow⟩

end LlamaTrade
