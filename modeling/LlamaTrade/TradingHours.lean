import LlamaTrade.WarmupWindows

/-!
# Trading hours

The two answers to when the market is open: `market_status` of the market-data service, and
`TradingHoursChecker` of the trading service. An instant is read on the clock of New York, given as
a day and a time of day. The sessions of `exchange_calendars` are a parameter.
-/

namespace LlamaTrade

/-- `time(hour, minute)`, in microseconds of the day. -/
def timeOfDay (hour minute : ℕ) : ℕ := (hour * 60 + minute) * 60000000

/-- A day and a time of day in New York. -/
@[ext]
structure WallTime where
  day : ℕ
  time : ℕ
  deriving DecidableEq

namespace WallTime

/-- Earlier on the clock. -/
def Before (a b : WallTime) : Prop := a.day < b.day ∨ a.day = b.day ∧ a.time < b.time

/-- The regular open of a day. -/
def opening (day : ℕ) : WallTime := ⟨day, timeOfDay 9 30⟩

end WallTime

/-- `America/New_York`: the clock is changed at night, so that each day has one 9:30, and the
instants before it are those that the clock shows as earlier. -/
structure EasternZone (Instant : Type) [LinearOrder Instant] where
  /-- `astimezone(_ET)`. -/
  wall : Instant → WallTime
  /-- The instant of a wall-clock time with `_ET` as its zone. -/
  instantOf : WallTime → Instant
  lt_opening : ∀ t day, t < instantOf (.opening day) ↔ (wall t).Before (.opening day)
  wall_opening : ∀ day, wall (instantOf (.opening day)) = .opening day

/-- The first of `count` days from `start` on that a calendar has. -/
def firstDay? (hasDay : ℕ → Bool) (start count : ℕ) : Option ℕ :=
  ((List.range count).find? fun k => hasDay (start + k)).map (start + ·)

/-! ## The market calendar -/

inductive MarketState where
  | marketOpen | closed | preMarket | afterHours
  deriving DecidableEq

/-- `MarketCalendarStatus`. -/
structure MarketCalendarStatus where
  state : MarketState
  nextOpen : WallTime
  nextClose : WallTime

/-- `_session_close_time`. -/
def sessionCloseTime (day : ℕ) : ℕ :=
  if day ∈ earlyCloseDays (yearOf day) then timeOfDay 13 0 else timeOfDay 16 0

/-- `_session_bounds`. -/
def sessionBounds (day : ℕ) : Option (WallTime × WallTime) :=
  if isTradingDay day then some (.opening day, ⟨day, sessionCloseTime day⟩) else none

/-- `_next_session`; it raises when there is no trading day within 14 days. -/
def nextSession (start : ℕ) : Option (WallTime × WallTime) :=
  (firstDay? isTradingDay start 14).bind sessionBounds

/-- `market_status`. -/
def marketStatus (eastern : WallTime) : Option MarketCalendarStatus :=
  let today := eastern.day
  match sessionBounds today with
  | some (openDt, closeDt) =>
    if eastern.time < openDt.time then
      some ⟨if timeOfDay 4 0 ≤ eastern.time then .preMarket else .closed, openDt, closeDt⟩
    else if eastern.time < closeDt.time then
      (nextSession (today + 1)).map fun next => ⟨.marketOpen, next.1, closeDt⟩
    else if eastern.time < timeOfDay 20 0 then
      (nextSession (today + 1)).map fun next => ⟨.afterHours, next.1, next.2⟩
    else (nextSession (today + 1)).map fun next => ⟨.closed, next.1, next.2⟩
  | none => (nextSession (today + 1)).map fun next => ⟨.closed, next.1, next.2⟩

/-! ## The trading hours checker -/

/-- `TradingHoursConfig`. -/
structure TradingHoursConfig where
  allowPremarket : Bool := false
  allowAfterhours : Bool := false
  premarketOpen : ℕ := timeOfDay 4 0
  regularOpen : ℕ := timeOfDay 9 30
  regularClose : ℕ := timeOfDay 16 0
  afterhoursClose : ℕ := timeOfDay 20 0

inductive SessionType where
  | regular | premarket | afterhours | closed
  deriving DecidableEq

/-- `MarketSession`. -/
structure MarketSession where
  sessionType : SessionType
  isOpen : Bool
  sessionOpen : Option WallTime
  sessionClose : Option WallTime
  nextRegularOpen : Option WallTime

/-- `TradingHoursChecker`, with `is_session` of its calendar. -/
structure TradingHoursChecker where
  config : TradingHoursConfig
  isSession : ℕ → Bool

namespace TradingHoursChecker

/-- `is_market_open`, which checks holidays. -/
def isMarketOpen (checker : TradingHoursChecker) (ts : WallTime) : Bool :=
  let config := checker.config
  if 5 ≤ weekdayOf ts.day then false
  else if !checker.isSession ts.day then false
  else if config.allowPremarket && config.premarketOpen ≤ ts.time && ts.time < config.regularOpen then
    true
  else if config.regularOpen ≤ ts.time && ts.time < config.regularClose then true
  else config.allowAfterhours && config.regularClose ≤ ts.time && ts.time < config.afterhoursClose

/-- `get_next_open`. -/
def getNextOpen (checker : TradingHoursChecker) (ts : WallTime) : WallTime :=
  let searchDate := if checker.config.regularOpen ≤ ts.time then ts.day + 1 else ts.day
  ⟨(firstDay? checker.isSession searchDate 10).getD (searchDate + 10), checker.config.regularOpen⟩

/-- `get_session_info`. -/
def getSessionInfo (checker : TradingHoursChecker) (ts : WallTime) : MarketSession :=
  let config := checker.config
  let regularOpenDt : WallTime := ⟨ts.day, config.regularOpen⟩
  let regularCloseDt : WallTime := ⟨ts.day, config.regularClose⟩
  if !checker.isSession ts.day then ⟨.closed, false, none, none, some (checker.getNextOpen ts)⟩
  else if ts.time < config.premarketOpen then ⟨.closed, false, none, none, some regularOpenDt⟩
  else if ts.time < config.regularOpen then
    ⟨.premarket, config.allowPremarket, some ⟨ts.day, config.premarketOpen⟩, some regularOpenDt,
      some regularOpenDt⟩
  else if ts.time < config.regularClose then
    ⟨.regular, true, some regularOpenDt, some regularCloseDt, none⟩
  else if ts.time < config.afterhoursClose then
    ⟨.afterhours, config.allowAfterhours, some regularCloseDt, some ⟨ts.day, config.afterhoursClose⟩,
      some (checker.getNextOpen { ts with day := ts.day + 1 })⟩
  else ⟨.closed, false, none, none, some (checker.getNextOpen { ts with day := ts.day + 1 })⟩

end TradingHoursChecker

/-! ## Agreement -/

section Agreement

variable {Instant : Type} [LinearOrder Instant]

/-- The earliest regular open after an instant. -/
structure IsNextOpen (zone : EasternZone Instant) (t : Instant) (reported : WallTime) : Prop where
  isOpening : ∃ day, isTradingDay day ∧ reported = .opening day
  after : t < zone.instantOf reported
  earliest : ∀ day, isTradingDay day → t < zone.instantOf (.opening day) →
    zone.instantOf reported ≤ zone.instantOf (.opening day)

/-- The two calendars agree at an instant. -/
structure CalendarsAgree (zone : EasternZone Instant) (checker : TradingHoursChecker) (t : Instant)
    (status : MarketCalendarStatus) : Prop where
  open_iff : checker.isMarketOpen (zone.wall t) = true ↔ status.state = .marketOpen
  info_eq : (checker.getSessionInfo (zone.wall t)).isOpen = checker.isMarketOpen (zone.wall t)
  nextOpen : status.state ≠ .marketOpen → ∃ reported,
    (checker.getSessionInfo (zone.wall t)).nextRegularOpen = some reported ∧
      IsNextOpen zone t reported ∧ status.nextOpen = reported

/-- Between the early close and the regular close of a half day. -/
def AfterEarlyClose (eastern : WallTime) : Prop :=
  isTradingDay eastern.day ∧ sessionCloseTime eastern.day ≤ eastern.time ∧
    eastern.time < timeOfDay 16 0

/-- After the close, with a session on the next day. -/
def BeforeSession (eastern : WallTime) : Prop :=
  isTradingDay eastern.day ∧ timeOfDay 16 0 ≤ eastern.time ∧ isTradingDay (eastern.day + 1)

theorem firstDay?_eq_some {hasDay : ℕ → Bool} {start count day : ℕ} (hday : hasDay day = true)
    (hlow : start ≤ day) (hhigh : day < start + count)
    (hfirst : ∀ e, start ≤ e → e < day → hasDay e = false) :
    firstDay? hasDay start count = some day := by
  have hfind : (List.range count).find? (fun k => hasDay (start + k)) = some (day - start) := by
    rw [List.find?_range_eq_some]
    refine ⟨by rwa [Nat.add_sub_cancel' hlow], List.mem_range.mpr (by omega), fun j hj => ?_⟩
    rw [hfirst (start + j) (Nat.le_add_right _ _) (by omega)]
    rfl
  rw [firstDay?, hfind, Option.map_some, Nat.add_sub_cancel' hlow]

/-- After each day there is a first trading day, and it is within six days. -/
theorem exists_nextTradingDay (day : ℕ) : ∃ next, day < next ∧ next ≤ day + 6 ∧
    isTradingDay next = true ∧ ∀ e, day + 1 ≤ e → e < next → isTradingDay e = false := by
  have hcard : 2 * 6 ≤ 3 * ((Finset.Ico (day + 1) (day + 1 + 6)).filter
    fun day => isTradingDay day).card + 11 := card_tradingDays (Nat.succ_pos day) 6
  have hexists : ∃ next, day < next ∧ next ≤ day + 6 ∧ isTradingDay next = true := by
    have hpos : 0 < ((Finset.Ico (day + 1) (day + 1 + 6)).filter
      fun day => isTradingDay day).card := by omega
    obtain ⟨next, hnext⟩ := Finset.card_pos.mp hpos
    obtain ⟨hwindow, htrading⟩ := Finset.mem_filter.mp hnext
    obtain ⟨hlow, hhigh⟩ := Finset.mem_Ico.mp hwindow
    exact ⟨next, hlow, by omega, htrading⟩
  obtain ⟨hlow, hhigh, htrading⟩ := Nat.find_spec hexists
  refine ⟨Nat.find hexists, hlow, hhigh, htrading, fun e he hlt => ?_⟩
  by_contra htrue
  exact Nat.find_min hexists hlt ⟨he, by omega, by simpa using htrue⟩

section Days

variable {day next : ℕ}

theorem nextSession_eq (hlow : day < next) (hhigh : next ≤ day + 6) (htrading : isTradingDay next = true)
    (hfirst : ∀ e, day + 1 ≤ e → e < next → isTradingDay e = false) :
    nextSession (day + 1) = some (.opening next, ⟨next, sessionCloseTime next⟩) := by
  rw [nextSession, firstDay?_eq_some htrading hlow (by omega) hfirst, Option.bind_some, sessionBounds,
    if_pos htrading]

theorem sessionCloseTime_cases (day : ℕ) :
    sessionCloseTime day = timeOfDay 13 0 ∨ sessionCloseTime day = timeOfDay 16 0 := by
  unfold sessionCloseTime
  split_ifs
  · exact .inl rfl
  · exact .inr rfl

end Days

variable {zone : EasternZone Instant} {t : Instant}

theorem lt_opening_iff {day : ℕ} : t < zone.instantOf (.opening day) ↔
    (zone.wall t).day < day ∨ (zone.wall t).day = day ∧ (zone.wall t).time < timeOfDay 9 30 :=
  zone.lt_opening t day

/-- The first trading day whose open is after the instant. -/
theorem isNextOpen_of_first {next : ℕ} (htrading : isTradingDay next = true)
    (hafter : t < zone.instantOf (.opening next))
    (hfirst : ∀ e < next, isTradingDay e = true → ¬ t < zone.instantOf (.opening e)) :
    IsNextOpen zone t (.opening next) := by
  refine ⟨⟨next, htrading, rfl⟩, hafter, fun day hday hlater => ?_⟩
  rw [← not_lt, zone.lt_opening, zone.wall_opening]
  rintro (hlt | ⟨-, hlt⟩)
  · exact hfirst day hlt hday hlater
  · exact lt_irrefl _ hlt

/-- The open of the next trading day, when that of the day itself is past or there is none. -/
theorem isNextOpen_next {next : ℕ} (hlow : (zone.wall t).day < next)
    (htrading : isTradingDay next = true)
    (hfirst : ∀ e, (zone.wall t).day + 1 ≤ e → e < next → isTradingDay e = false)
    (hpast : isTradingDay (zone.wall t).day = true → timeOfDay 9 30 ≤ (zone.wall t).time) :
    IsNextOpen zone t (.opening next) := by
  refine isNextOpen_of_first htrading (lt_opening_iff.mpr (.inl hlow)) fun e he hday => ?_
  rw [lt_opening_iff]
  rintro (hlt | ⟨heq, htime⟩)
  · rw [hfirst e hlt he] at hday
    cases hday
  · exact htime.not_ge (hpast (heq ▸ hday))

/-! ### The checker on the trading days of the calendar -/

/-- The default checker, whose sessions are the trading days. -/
def defaultChecker : TradingHoursChecker := ⟨{}, isTradingDay⟩

section Checker

variable {ts : WallTime} {next : ℕ}

theorem weekdayOf_lt (h : isTradingDay ts.day = true) : weekdayOf ts.day < 5 := by
  simp only [isTradingDay, decide_eq_true_eq] at h
  exact h.1

theorem isMarketOpen_default : defaultChecker.isMarketOpen ts = true ↔
    isTradingDay ts.day = true ∧ timeOfDay 9 30 ≤ ts.time ∧ ts.time < timeOfDay 16 0 := by
  by_cases hday : isTradingDay ts.day = true
  · simp [TradingHoursChecker.isMarketOpen, defaultChecker, hday, weekdayOf_lt hday]
    exact Iff.and decide_eq_true_iff decide_eq_true_iff
  · simp [TradingHoursChecker.isMarketOpen, defaultChecker, hday]

theorem getNextOpen_default (hlow : ts.day < next) (hhigh : next ≤ ts.day + 6)
    (htrading : isTradingDay next = true)
    (hfirst : ∀ e, ts.day + 1 ≤ e → e < next → isTradingDay e = false)
    (hday : isTradingDay ts.day = true → timeOfDay 9 30 ≤ ts.time) :
    defaultChecker.getNextOpen ts = .opening next := by
  by_cases htime : timeOfDay 9 30 ≤ ts.time
  · have hfound : firstDay? isTradingDay (ts.day + 1) 10 = some next :=
      firstDay?_eq_some htrading hlow (by omega) hfirst
    rw [TradingHoursChecker.getNextOpen,
      if_pos (show defaultChecker.config.regularOpen ≤ ts.time from htime)]
    dsimp only [defaultChecker]
    rw [hfound]
    rfl
  · have hfound : firstDay? isTradingDay ts.day 10 = some next := by
      refine firstDay?_eq_some htrading hlow.le (by omega) fun e he hlt => ?_
      obtain rfl | hgt := Nat.eq_or_lt_of_le he
      · simpa using fun h => htime (hday h)
      · exact hfirst e hgt hlt
    rw [TradingHoursChecker.getNextOpen,
      if_neg (show ¬ defaultChecker.config.regularOpen ≤ ts.time from htime)]
    dsimp only [defaultChecker]
    rw [hfound]
    rfl

end Checker

/-- A session that is not the regular one reports the open that the calendar reports. -/
theorem agree_closed {status : MarketCalendarStatus}
    {checker : TradingHoursChecker} {reported : WallTime}
    (hopen : checker.isMarketOpen (zone.wall t) = false)
    (hinfo : (checker.getSessionInfo (zone.wall t)).isOpen = false)
    (hstate : status.state ≠ .marketOpen)
    (hreported : (checker.getSessionInfo (zone.wall t)).nextRegularOpen = some reported)
    (hnext : IsNextOpen zone t status.nextOpen) :
    CalendarsAgree zone checker t status ↔ status.nextOpen = reported := by
  constructor
  · intro hagree
    obtain ⟨other, hother, -, heq⟩ := hagree.nextOpen hstate
    rw [hreported] at hother
    exact heq.trans (Option.some.inj hother).symm
  · rintro rfl
    exact ⟨by simp [hopen, hstate], hinfo.trans hopen.symm, fun _ => ⟨_, hreported, hnext, rfl⟩⟩

variable {next : ℕ}

/-- A day without a session. -/
theorem agree_holiday (hday : isTradingDay (zone.wall t).day = false)
    (hlow : (zone.wall t).day < next) (hhigh : next ≤ (zone.wall t).day + 6)
    (htrading : isTradingDay next = true)
    (hfirst : ∀ e, (zone.wall t).day + 1 ≤ e → e < next → isTradingDay e = false) :
    ∃ status, marketStatus (zone.wall t) = some status ∧ CalendarsAgree zone defaultChecker t status := by
  have hnone : isTradingDay (zone.wall t).day = true → timeOfDay 9 30 ≤ (zone.wall t).time := by
    simp [hday]
  have hinfo : defaultChecker.getSessionInfo (zone.wall t) =
      ⟨.closed, false, none, none, some (.opening next)⟩ := by
    rw [← getNextOpen_default hlow hhigh htrading hfirst hnone]
    simp [TradingHoursChecker.getSessionInfo, defaultChecker, hday]
  refine ⟨⟨.closed, .opening next, ⟨next, sessionCloseTime next⟩⟩, ?_, ?_⟩
  · simp [marketStatus, sessionBounds, hday, nextSession_eq hlow hhigh htrading hfirst]
  · refine (agree_closed ?_ (by rw [hinfo]) (by simp) (by rw [hinfo]) ?_).mpr rfl
    · rw [← Bool.not_eq_true, isMarketOpen_default, hday]
      simp
    · exact isNextOpen_next hlow htrading hfirst hnone

/-- The morning of a trading day. -/
theorem agree_morning (hday : isTradingDay (zone.wall t).day = true)
    (htime : (zone.wall t).time < timeOfDay 9 30) :
    ∃ status, marketStatus (zone.wall t) = some status ∧ CalendarsAgree zone defaultChecker t status := by
  have hinfo : (defaultChecker.getSessionInfo (zone.wall t)).isOpen = false ∧
      (defaultChecker.getSessionInfo (zone.wall t)).nextRegularOpen =
        some (.opening (zone.wall t).day) := by
    by_cases hpre : (zone.wall t).time < timeOfDay 4 0 <;>
      simp [TradingHoursChecker.getSessionInfo, defaultChecker, hday, hpre, htime, WallTime.opening]
  have hnext : IsNextOpen zone t (.opening (zone.wall t).day) := by
    refine isNextOpen_of_first hday (lt_opening_iff.mpr (.inr ⟨rfl, htime⟩)) fun e he _ => ?_
    rw [lt_opening_iff]
    omega
  refine ⟨⟨if timeOfDay 4 0 ≤ (zone.wall t).time then .preMarket else .closed,
    .opening (zone.wall t).day, ⟨(zone.wall t).day, sessionCloseTime (zone.wall t).day⟩⟩, ?_, ?_⟩
  · simp [marketStatus, sessionBounds, hday, WallTime.opening, htime]
  · refine (agree_closed ?_ hinfo.1 (by dsimp only; split_ifs <;> simp) hinfo.2 hnext).mpr rfl
    rw [← Bool.not_eq_true, isMarketOpen_default]
    exact fun h => h.2.1.not_gt htime

/-- The regular hours of a trading day. -/
theorem agree_regular (hday : isTradingDay (zone.wall t).day = true)
    (hopen : timeOfDay 9 30 ≤ (zone.wall t).time)
    (hclose : (zone.wall t).time < sessionCloseTime (zone.wall t).day)
    (hregular : (zone.wall t).time < timeOfDay 16 0)
    (hnext : nextSession ((zone.wall t).day + 1) =
      some (.opening next, ⟨next, sessionCloseTime next⟩)) :
    ∃ status, marketStatus (zone.wall t) = some status ∧ CalendarsAgree zone defaultChecker t status := by
  have hpre : ¬ (zone.wall t).time < timeOfDay 4 0 := by
    have hnight : timeOfDay 4 0 < timeOfDay 9 30 := by decide
    omega
  have hmarket : defaultChecker.isMarketOpen (zone.wall t) = true :=
    isMarketOpen_default.mpr ⟨hday, hopen, hregular⟩
  refine ⟨⟨.marketOpen, .opening next, ⟨(zone.wall t).day, sessionCloseTime (zone.wall t).day⟩⟩, ?_, ?_⟩
  · simp [marketStatus, sessionBounds, hday, WallTime.opening, hopen.not_gt, hclose, hnext]
  · refine ⟨by simp [hmarket], ?_, fun h => absurd rfl h⟩
    rw [hmarket]
    simp [TradingHoursChecker.getSessionInfo, defaultChecker, hday, hpre, hopen.not_gt, hregular]

/-- The hours after the close: the calendar never says that the market is open. -/
theorem marketStatus_evening {eastern : WallTime} (hday : isTradingDay eastern.day = true)
    (hopen : timeOfDay 9 30 ≤ eastern.time) (hclose : sessionCloseTime eastern.day ≤ eastern.time)
    (hnext : nextSession (eastern.day + 1) = some (.opening next, ⟨next, sessionCloseTime next⟩)) :
    ∃ status, marketStatus eastern = some status ∧ status.state ≠ .marketOpen ∧
      status.nextOpen = .opening next := by
  by_cases hafter : eastern.time < timeOfDay 20 0
  · refine ⟨⟨.afterHours, .opening next, ⟨next, sessionCloseTime next⟩⟩, ?_, by simp, rfl⟩
    simp [marketStatus, sessionBounds, hday, WallTime.opening, hopen.not_gt, hclose.not_gt, hafter, hnext]
  · refine ⟨⟨.closed, .opening next, ⟨next, sessionCloseTime next⟩⟩, ?_, by simp, rfl⟩
    simp [marketStatus, sessionBounds, hday, WallTime.opening, hopen.not_gt, hclose.not_gt, hafter, hnext]

/-- In the evening the checker looks for the next open from the day after the next. -/
theorem sessionInfo_evening {eastern : WallTime} (hday : isTradingDay eastern.day = true)
    (hclose : timeOfDay 16 0 ≤ eastern.time) :
    (defaultChecker.getSessionInfo eastern).isOpen = false ∧
      (defaultChecker.getSessionInfo eastern).nextRegularOpen =
        some (defaultChecker.getNextOpen { eastern with day := eastern.day + 1 }) := by
  have hnight : timeOfDay 4 0 < timeOfDay 16 0 := by decide
  have hmorning : timeOfDay 9 30 < timeOfDay 16 0 := by decide
  by_cases hafter : eastern.time < timeOfDay 20 0 <;>
    simp [TradingHoursChecker.getSessionInfo, defaultChecker, hday, (hnight.trans_le hclose).not_gt,
      (hmorning.trans_le hclose).not_gt, hclose.not_gt, hafter]

/-- The day after the next is where to look exactly when there is no session on the next day. -/
theorem evening_next_iff {eastern : WallTime} (hlow : eastern.day < next)
    (htrading : isTradingDay next = true)
    (hfirst : ∀ e, eastern.day + 1 ≤ e → e < next → isTradingDay e = false)
    (hopen : timeOfDay 9 30 ≤ eastern.time) :
    WallTime.opening next = defaultChecker.getNextOpen { eastern with day := eastern.day + 1 } ↔
      ¬ isTradingDay (eastern.day + 1) = true := by
  obtain ⟨later, hlater, hwithin, hlaterTrading, hlaterFirst⟩ := exists_nextTradingDay (eastern.day + 1)
  have hfound : defaultChecker.getNextOpen { eastern with day := eastern.day + 1 } = .opening later :=
    getNextOpen_default hlater hwithin hlaterTrading hlaterFirst fun _ => hopen
  rw [hfound]
  have hsame : WallTime.opening next = WallTime.opening later ↔ next = later :=
    ⟨fun h => congrArg WallTime.day h, fun h => congrArg WallTime.opening h⟩
  rw [hsame]
  constructor
  · rintro rfl htomorrow
    rw [hfirst _ le_rfl hlater] at htomorrow
    cases htomorrow
  · intro htomorrow
    have hskip : eastern.day + 1 < next := by
      refine Nat.lt_of_le_of_ne hlow fun heq => htomorrow ?_
      rw [heq]
      exact htrading
    rcases Nat.lt_trichotomy next later with hlt | heq | hgt
    · rw [hlaterFirst next hskip hlt] at htrading
      cases htrading
    · exact heq
    · rw [hfirst later (by omega) hgt] at hlaterTrading
      cases hlaterTrading

/-- At every instant the calendars agree if and only if it is not the afternoon of a half day, and
not the evening before another session. -/
theorem calendars_agree_iff (zone : EasternZone Instant) {isSession : ℕ → Bool}
    (hsession : ∀ day, isSession day = isTradingDay day) (t : Instant) :
    ∃ status, marketStatus (zone.wall t) = some status ∧
      (CalendarsAgree zone ⟨{}, isSession⟩ t status ↔
        ¬ AfterEarlyClose (zone.wall t) ∧ ¬ BeforeSession (zone.wall t)) := by
  obtain rfl : isSession = isTradingDay := funext hsession
  obtain ⟨next, hlow, hhigh, htrading, hfirst⟩ := exists_nextTradingDay (zone.wall t).day
  have hnext := nextSession_eq hlow hhigh htrading hfirst
  have hmorning : timeOfDay 9 30 < timeOfDay 13 0 := by decide
  have hafternoon : timeOfDay 13 0 < timeOfDay 16 0 := by decide
  have hcloses := sessionCloseTime_cases (zone.wall t).day
  by_cases hday : isTradingDay (zone.wall t).day = true
  · obtain hopen | hopen := Nat.lt_or_ge (zone.wall t).time (timeOfDay 9 30)
    · obtain ⟨status, hstatus, hagree⟩ := agree_morning hday hopen
      refine ⟨status, hstatus, iff_of_true hagree ⟨fun h => ?_, fun h => ?_⟩⟩
      · have hclose := h.2.1
        omega
      · have hclose := h.2.1
        omega
    · obtain hregular | hclose := Nat.lt_or_ge (zone.wall t).time (timeOfDay 16 0)
      · by_cases hearly : (zone.wall t).time < sessionCloseTime (zone.wall t).day
        · obtain ⟨status, hstatus, hagree⟩ := agree_regular hday hopen hearly hregular hnext
          exact ⟨status, hstatus, iff_of_true hagree
            ⟨fun h => h.2.1.not_gt hearly, fun h => h.2.1.not_gt hregular⟩⟩
        · -- The checker does not know the half day.
          obtain ⟨status, hstatus, hstate, -⟩ :=
            marketStatus_evening hday hopen (Nat.le_of_not_lt hearly) hnext
          refine ⟨status, hstatus, iff_of_false (fun hagree => ?_) fun h => ?_⟩
          · exact hstate (hagree.open_iff.mp (isMarketOpen_default.mpr ⟨hday, hopen, hregular⟩))
          · exact h.1 ⟨hday, Nat.le_of_not_lt hearly, hregular⟩
      · obtain ⟨status, hstatus, hstate, hstatusNext⟩ :=
          marketStatus_evening hday hopen (by omega) hnext
        obtain ⟨hinfo, hreported⟩ := sessionInfo_evening hday hclose
        have hmarket : defaultChecker.isMarketOpen (zone.wall t) = false := by
          rw [← Bool.not_eq_true, isMarketOpen_default]
          exact fun h => h.2.2.not_ge hclose
        have hnextOpen : IsNextOpen zone t status.nextOpen := by
          rw [hstatusNext]
          exact isNextOpen_next hlow htrading hfirst fun _ => hopen
        refine ⟨status, hstatus, ?_⟩
        rw [show (⟨{}, isTradingDay⟩ : TradingHoursChecker) = defaultChecker from rfl,
          agree_closed hmarket hinfo hstate hreported hnextOpen, hstatusNext]
        have hnot : ¬ AfterEarlyClose (zone.wall t) := fun h => h.2.2.not_ge hclose
        rw [evening_next_iff hlow htrading hfirst hopen]
        exact ⟨fun h => ⟨hnot, fun hbefore => h hbefore.2.2⟩, fun h htomorrow =>
          h.2 ⟨hday, hclose, htomorrow⟩⟩
  · obtain ⟨status, hstatus, hagree⟩ :=
      agree_holiday (by simpa using hday) hlow hhigh htrading hfirst
    exact ⟨status, hstatus, iff_of_true hagree ⟨fun h => hday h.1, fun h => hday h.1⟩⟩

end Agreement

namespace Sample

/-- A zone with one clock all year, whose instants count from the first day on. -/
def standardZone : EasternZone ℕ where
  wall t := ⟨t / timeOfDay 24 0, t % timeOfDay 24 0⟩
  instantOf wall := wall.day * timeOfDay 24 0 + wall.time
  lt_opening := by
    intro t day
    simp only [WallTime.Before, WallTime.opening, timeOfDay]
    omega
  wall_opening := by
    intro day
    simp only [WallTime.opening, timeOfDay]
    ext <;> dsimp only <;> omega

end Sample

theorem calendars_agree_iff_standard :
    ∃ status, marketStatus (Sample.standardZone.wall 0) = some status ∧
      (CalendarsAgree Sample.standardZone ⟨{}, isTradingDay⟩ 0 status ↔
        ¬ AfterEarlyClose (Sample.standardZone.wall 0) ∧ ¬ BeforeSession (Sample.standardZone.wall 0)) :=
  calendars_agree_iff _ (fun _ => rfl) 0

/-- On 3 July 2023 at 14:00 the checker says that the market is open and the calendar that it is
closed; on Monday 9 January 2023 at 17:00 the checker reports Wednesday's open. -/
theorem calendars_disagree :
    defaultChecker.isMarketOpen ⟨dayNumber 2023 7 3, timeOfDay 14 0⟩ = true ∧
      (marketStatus ⟨dayNumber 2023 7 3, timeOfDay 14 0⟩).map (·.state) = some .afterHours ∧
      (defaultChecker.getSessionInfo ⟨dayNumber 2023 1 9, timeOfDay 17 0⟩).nextRegularOpen =
        some (.opening (dayNumber 2023 1 11)) ∧
      (marketStatus ⟨dayNumber 2023 1 9, timeOfDay 17 0⟩).map (·.nextOpen) =
        some (.opening (dayNumber 2023 1 10)) := by
  decide

end LlamaTrade
