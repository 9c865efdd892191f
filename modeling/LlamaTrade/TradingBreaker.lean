import LlamaTrade.TransitionRuns
import LlamaTrade.RealizedPnl

/-!
# The circuit breaker of a session

`CircuitBreaker` of `circuit_breaker.py` with its thresholds, its error windows and the timer that
resets it. The calls come one after the other; a timer that has ended lets one call through before
it closes the breaker. Amounts are exact, and the callback and the details are left out.
-/

namespace LlamaTrade

inductive TripReason where
  | consecutiveLosses | dailyLossLimit | drawdownLimit | orderErrors | apiErrors | manual
  deriving DecidableEq

/-- `CircuitBreakerState`. -/
inductive BreakerState where
  | closed | opened | halfOpen
  deriving DecidableEq

/-- `CircuitBreakerConfig` in full. -/
structure BreakerConfig extends CircuitBreakerConfig where
  maxOrderErrors : ℤ
  maxApiErrors : ℤ
  errorWindowSeconds : ℤ
  cooldownSeconds : ℤ
  autoReset : Bool

/-- A cooldown timer sleeps, or it has ended and waits to close the breaker. -/
inductive CooldownTimer where
  | sleeping | closing
  deriving DecidableEq

/-- The fields of `CircuitBreaker`. -/
structure TradingBreaker where
  startingEquity : ℚ
  consecutiveLosses : ℕ
  dailyPnl : ℚ
  currentEquity : ℚ
  peakEquity : ℚ
  orderErrors : List ℚ
  apiErrors : List ℚ
  state : BreakerState
  triggeredAt : Option ℚ
  triggeredReason : Option TripReason
  cooldownTask : Option ℕ
  /-- The timers that are alive, and how many have been started. -/
  timers : ℕ → Option CooldownTimer
  started : ℕ

namespace TradingBreaker

def create (startingEquity : ℚ) : TradingBreaker where
  startingEquity := startingEquity
  consecutiveLosses := 0
  dailyPnl := 0
  currentEquity := startingEquity
  peakEquity := startingEquity
  orderErrors := []
  apiErrors := []
  state := .closed
  triggeredAt := none
  triggeredReason := none
  cooldownTask := none
  timers := fun _ => none
  started := 0

variable (config : BreakerConfig) (b : TradingBreaker)

def canTrade : Bool := b.state ≠ .opened

/-- `_trigger` at a time: a breaker that is open stays as it is. -/
def trigger (reason : TripReason) (now : ℚ) : TradingBreaker :=
  if b.state = .opened then b
  else
    let tripped := { b with
      state := .opened
      triggeredAt := some now
      triggeredReason := some reason }
    if config.autoReset then
      { tripped with
        cooldownTask := some b.started
        timers := Function.update b.timers b.started (some .sleeping)
        started := b.started + 1 }
    else tripped

/-! ## The thresholds -/

def LossesMet : Prop := config.maxConsecutiveLosses ≤ b.consecutiveLosses

instance : Decidable (b.LossesMet config) := inferInstanceAs (Decidable (_ ≤ _))

/-- `none` when the starting equity that the P&L is divided by is zero. -/
def dailyLossPercent : Option ℚ :=
  if b.startingEquity = 0 then none else some |b.dailyPnl / b.startingEquity * 100|

def DailyLossMet : Prop :=
  b.dailyPnl < 0 ∧ b.dailyLossPercent.any (config.maxDailyLossPercent ≤ ·)

instance : Decidable (b.DailyLossMet config) := inferInstanceAs (Decidable (_ ∧ _))

def DrawdownMet : Prop :=
  0 < b.peakEquity ∧
    config.maxDrawdownPercent ≤ (b.peakEquity - b.currentEquity) / b.peakEquity * 100

instance : Decidable (b.DrawdownMet config) := inferInstanceAs (Decidable (_ ∧ _))

/-- `ErrorTracker.count_recent` at a time: the errors that are kept. -/
def recentErrors (errors : List ℚ) (now : ℚ) : List ℚ :=
  errors.filter (now - config.errorWindowSeconds < ·)

def OrderErrorsMet (now : ℚ) : Prop :=
  config.maxOrderErrors ≤ (recentErrors config b.orderErrors now).length

instance (now : ℚ) : Decidable (b.OrderErrorsMet config now) := inferInstanceAs (Decidable (_ ≤ _))

def ApiErrorsMet (now : ℚ) : Prop :=
  config.maxApiErrors ≤ (recentErrors config b.apiErrors now).length

instance (now : ℚ) : Decidable (b.ApiErrorsMet config now) := inferInstanceAs (Decidable (_ ≤ _))

/-- One of the configured thresholds is met at the time. -/
def ThresholdMet (now : ℚ) : Prop :=
  b.LossesMet config ∨ b.DailyLossMet config ∨ b.DrawdownMet config ∨ b.OrderErrorsMet config now ∨
    b.ApiErrorsMet config now

instance (now : ℚ) : Decidable (b.ThresholdMet config now) :=
  inferInstanceAs (Decidable (_ ∨ _ ∨ _ ∨ _ ∨ _))

/-! ## The calls -/

/-- The counters after a trade. -/
def tradeCounted (isWin : Bool) (pnl : ℚ) : TradingBreaker :=
  { b with
    consecutiveLosses := if isWin then 0 else b.consecutiveLosses + 1
    dailyPnl := b.dailyPnl + pnl
    currentEquity := b.currentEquity + pnl
    peakEquity := if b.peakEquity < b.currentEquity + pnl then b.currentEquity + pnl
      else b.peakEquity }

/-- `record_trade`, and whether it raises. -/
def recordTrade (now : ℚ) (isWin : Bool) (pnl : ℚ) : TradingBreaker × Bool :=
  let b := b.tradeCounted isWin pnl
  if b.LossesMet config then (b.trigger config .consecutiveLosses now, false)
  else
    match b.dailyLossPercent with
    | none => (b, true)
    | some dailyLossPercent =>
      if b.dailyPnl < 0 ∧ config.maxDailyLossPercent ≤ dailyLossPercent then
        (b.trigger config .dailyLossLimit now, false)
      else if b.DrawdownMet config then (b.trigger config .drawdownLimit now, false)
      else (b, false)

/-- The errors after one that is added at a time and counted at another. -/
def orderErrorCounted (added counted : ℚ) : TradingBreaker :=
  { b with orderErrors := recentErrors config (b.orderErrors ++ [added]) counted }

/-- `record_order_error`. -/
def recordOrderError (added counted now : ℚ) : TradingBreaker :=
  let b := b.orderErrorCounted config added counted
  if config.maxOrderErrors ≤ b.orderErrors.length then b.trigger config .orderErrors now else b

def apiErrorCounted (added counted : ℚ) : TradingBreaker :=
  { b with apiErrors := recentErrors config (b.apiErrors ++ [added]) counted }

/-- `record_api_error`. -/
def recordApiError (added counted now : ℚ) : TradingBreaker :=
  let b := b.apiErrorCounted config added counted
  if config.maxApiErrors ≤ b.apiErrors.length then b.trigger config .apiErrors now else b

/-- `update_equity`. -/
def updateEquity (equity : ℚ) (dailyPnl : Option ℚ) : TradingBreaker :=
  { b with
    currentEquity := equity
    peakEquity := if b.peakEquity < equity then equity else b.peakEquity
    dailyPnl := dailyPnl.getD b.dailyPnl }

/-- `check_thresholds`, and whether it raises. -/
def checkThresholds (now : ℚ) : TradingBreaker × Bool :=
  if b.state = .opened then (b, false)
  else if b.DrawdownMet config then (b.trigger config .drawdownLimit now, false)
  else if b.dailyPnl < 0 then
    match b.dailyLossPercent with
    | none => (b, true)
    | some dailyLossPercent =>
      if config.maxDailyLossPercent ≤ dailyLossPercent then
        (b.trigger config .dailyLossLimit now, false)
      else (b, false)
  else (b, false)

/-- The end of `reset`. -/
def close : TradingBreaker :=
  { b with
    cooldownTask := none
    state := .closed
    triggeredAt := none
    triggeredReason := none
    orderErrors := []
    apiErrors := [] }

/-- A timer that is cancelled while it sleeps ends; one that is closing the breaker goes on. -/
def cancel (id : ℕ) : TradingBreaker :=
  { b with
    timers := if b.timers id = some .sleeping then Function.update b.timers id none else b.timers }

/-- `reset`, and whether it succeeds; it waits for the timer that it cancels. -/
def reset (force : Bool) (now : ℚ) : TradingBreaker × Bool :=
  if b.state = .closed then (b, true)
  else if !force ∧ b.triggeredAt.any (now - · < config.cooldownSeconds) then (b, false)
  else
    match b.cooldownTask with
    | none => (b.close, true)
    | some id => ({ b.close with timers := Function.update b.timers id none }, true)

/-- `reset_daily_tracking`; an equity of zero is taken for none. -/
def resetDailyTracking (newStartingEquity : Option ℚ) : TradingBreaker :=
  { b with
    startingEquity := (newStartingEquity.filter (· ≠ 0)).getD b.startingEquity
    dailyPnl := 0
    consecutiveLosses := 0
    peakEquity := b.currentEquity }

/-- The timer has slept through the cooldown: `_cooldown_timer` up to where its `reset` waits for
the timer that it cancels, which as a rule is itself. -/
def wake (id : ℕ) : TradingBreaker :=
  if b.state = .opened then
    let half := { b with state := .halfOpen }
    match b.cooldownTask with
    | none => { half.close with timers := Function.update b.timers id none }
    | some task =>
      { half.cancel task with timers := Function.update (half.cancel task).timers id (some .closing) }
  else { b with timers := Function.update b.timers id none }

/-- The rest of the `reset` of a timer. -/
def finish (id : ℕ) : TradingBreaker := { b.close with timers := Function.update b.timers id none }

end TradingBreaker

/-! ## Runs -/

inductive BreakerAction where
  | recordTrade (now : ℚ) (isWin : Bool) (pnl : ℚ)
  | recordOrderError (added counted now : ℚ)
  | recordApiError (added counted now : ℚ)
  | updateEquity (equity : ℚ) (dailyPnl : Option ℚ)
  | checkThresholds (now : ℚ)
  | manualTrigger (now : ℚ)
  | reset (force : Bool) (now : ℚ)
  | resetDailyTracking (newStartingEquity : Option ℚ)
  | wake (id : ℕ)
  | finish (id : ℕ)

/-- A breaker, whether a call has raised, and whether trading has to be off: since a record or a
check at which a threshold was met, or a manual stop, the breaker has not been reset and the
cooldown of its last trip has not ended. -/
structure BreakerWorld where
  breaker : TradingBreaker
  raised : Bool
  held : Bool

namespace BreakerWorld

variable (config : BreakerConfig)

def create (startingEquity : ℚ) : BreakerWorld := ⟨.create startingEquity, false, false⟩

def step (w : BreakerWorld) : BreakerAction → Option BreakerWorld
  | .recordTrade now isWin pnl =>
    let recorded := w.breaker.recordTrade config now isWin pnl
    let met : Bool := (w.breaker.tradeCounted isWin pnl).ThresholdMet config now
    some ⟨recorded.1, w.raised || recorded.2, w.held || met⟩
  | .recordOrderError added counted now =>
    let met : Bool := (w.breaker.orderErrorCounted config added counted).ThresholdMet config counted
    some ⟨w.breaker.recordOrderError config added counted now, w.raised, w.held || met⟩
  | .recordApiError added counted now =>
    let met : Bool := (w.breaker.apiErrorCounted config added counted).ThresholdMet config counted
    some ⟨w.breaker.recordApiError config added counted now, w.raised, w.held || met⟩
  | .updateEquity equity dailyPnl => some { w with breaker := w.breaker.updateEquity equity dailyPnl }
  | .checkThresholds now =>
    let checked := w.breaker.checkThresholds config now
    let met : Bool := w.breaker.ThresholdMet config now
    some ⟨checked.1, w.raised || checked.2, w.held || met⟩
  | .manualTrigger now => some ⟨w.breaker.trigger config .manual now, w.raised, true⟩
  | .reset force now =>
    let reset := w.breaker.reset config force now
    some ⟨reset.1, w.raised, w.held && !reset.2⟩
  | .resetDailyTracking newStartingEquity =>
    some { w with breaker := w.breaker.resetDailyTracking newStartingEquity }
  | .wake id =>
    if w.breaker.timers id = some .sleeping then
      some ⟨w.breaker.wake id, w.raised, w.held && decide (w.breaker.cooldownTask ≠ some id)⟩
    else none
  | .finish id =>
    if w.breaker.timers id = some .closing then some { w with breaker := w.breaker.finish id }
    else none

/-- The call divides by no zero, it checks a threshold that is met if any is and the breaker is not
open yet, and it does not trip a breaker that a timer is about to close. -/
def Heeded (w : BreakerWorld) : BreakerAction → Prop
  | .recordTrade now isWin pnl =>
    let b := w.breaker.tradeCounted isWin pnl
    let checked := b.LossesMet config ∨ b.DailyLossMet config ∨ b.DrawdownMet config
    (b.LossesMet config ∨ b.startingEquity ≠ 0) ∧
      (b.ThresholdMet config now → b.state = .opened ∨ checked) ∧ (checked → b.state ≠ .halfOpen)
  | .recordOrderError added counted _ =>
    let b := w.breaker.orderErrorCounted config added counted
    let checked := config.maxOrderErrors ≤ b.orderErrors.length
    (b.ThresholdMet config counted → b.state = .opened ∨ checked) ∧ (checked → b.state ≠ .halfOpen)
  | .recordApiError added counted _ =>
    let b := w.breaker.apiErrorCounted config added counted
    let checked := config.maxApiErrors ≤ b.apiErrors.length
    (b.ThresholdMet config counted → b.state = .opened ∨ checked) ∧ (checked → b.state ≠ .halfOpen)
  | .checkThresholds now =>
    let b := w.breaker
    let checked := b.DrawdownMet config ∨ b.DailyLossMet config
    (b.state = .opened ∨ b.DrawdownMet config ∨ 0 ≤ b.dailyPnl ∨ b.startingEquity ≠ 0) ∧
      (b.ThresholdMet config now → b.state = .opened ∨ checked) ∧ (checked → b.state ≠ .halfOpen)
  | .manualTrigger _ => w.breaker.state ≠ .halfOpen
  | _ => True

/-- No call has raised, trading is off while it has to be, and else the breaker is closed once no
timer is about to close it. -/
structure Obeys (w : BreakerWorld) : Prop where
  calm : w.raised = false
  off : w.held = true → w.breaker.canTrade = false
  closed : w.held = false → (∀ id, w.breaker.timers id ≠ some .closing) → w.breaker.state = .closed

end BreakerWorld

namespace TradingBreaker

/-- How the state, the timers and whether trading has to be off belong together. -/
inductive Watched (b : TradingBreaker) : Bool → Prop
  | closed (hstate : b.state = .closed) (htask : b.cooldownTask = none)
      (htimers : ∀ id, b.timers id = none) : Watched b false
  | opened (hstate : b.state = .opened) (htask : b.cooldownTask = none)
      (htimers : ∀ id, b.timers id = none) : Watched b true
  | cooling (task : ℕ) (hstate : b.state = .opened) (htask : b.cooldownTask = some task)
      (hother : ∀ id ≠ task, b.timers id = none) (htimer : b.timers task = some .sleeping) :
      Watched b true
  | halfOpen (task : ℕ) (hstate : b.state = .halfOpen) (htask : b.cooldownTask = some task)
      (hother : ∀ id ≠ task, b.timers id = none) (htimer : b.timers task = some .closing) :
      Watched b false

variable {config : BreakerConfig} {b b' : TradingBreaker} {held : Bool}

/-- The counters have no part in it. -/
theorem Watched.of_same (h : Watched b held) (hstate : b'.state = b.state)
    (htask : b'.cooldownTask = b.cooldownTask) (htimers : b'.timers = b.timers) :
    Watched b' held := by
  cases h with
  | closed hs ht hnone => exact .closed (hstate.trans hs) (htask.trans ht) (htimers ▸ hnone)
  | opened hs ht hnone => exact .opened (hstate.trans hs) (htask.trans ht) (htimers ▸ hnone)
  | cooling task hs ht hother htimer =>
    exact .cooling task (hstate.trans hs) (htask.trans ht) (htimers ▸ hother) (htimers ▸ htimer)
  | halfOpen task hs ht hother htimer =>
    exact .halfOpen task (hstate.trans hs) (htask.trans ht) (htimers ▸ hother) (htimers ▸ htimer)

theorem Watched.held_eq (h : Watched b held) (hopen : b.state = .opened) : held = true := by
  cases h with
  | opened | cooling => rfl
  | closed hs | halfOpen _ hs => cases hs.symm.trans hopen

theorem Watched.trigger (h : Watched b held) (hhalf : b.state ≠ .halfOpen) (reason : TripReason)
    (now : ℚ) : Watched (b.trigger config reason now) true := by
  by_cases hopen : b.state = .opened
  · rw [TradingBreaker.trigger, if_pos hopen]
    exact h.held_eq hopen ▸ h
  · rw [TradingBreaker.trigger, if_neg hopen]
    cases h with
    | opened hs | cooling _ hs => exact absurd hs hopen
    | halfOpen _ hs => exact absurd hs hhalf
    | closed hs ht hnone =>
      dsimp only
      cases config.autoReset with
      | false => exact .opened rfl ht hnone
      | true =>
        refine .cooling b.started rfl rfl (fun id hne => ?_) (Function.update_self ..)
        exact (Function.update_of_ne hne ..).trans (hnone id)

/-- A call that counts, and trips the breaker if a threshold that it checks is met. -/
theorem Watched.call (counted : TradingBreaker) {checked : Prop} [Decidable checked] {met : Bool}
    (h : Watched b held) (hstate : counted.state = b.state)
    (htask : counted.cooldownTask = b.cooldownTask) (htimers : counted.timers = b.timers)
    (hmet : met = true → counted.state = .opened ∨ checked) (hchecked : checked → met = true)
    (hhalf : checked → counted.state ≠ .halfOpen) (reason : TripReason) (now : ℚ) :
    Watched (if checked then counted.trigger config reason now else counted) (held || met) := by
  have hcounted := h.of_same hstate htask htimers
  by_cases hc : checked
  · rw [if_pos hc, hchecked hc, Bool.or_true]
    exact hcounted.trigger (hhalf hc) reason now
  · rw [if_neg hc]
    cases met with
    | false => rwa [Bool.or_false]
    | true =>
      obtain hopen | hc' := hmet rfl
      · rw [Bool.or_true]
        exact hcounted.held_eq hopen ▸ hcounted
      · exact absurd hc' hc

theorem dailyLossMet_iff (hne : b.startingEquity ≠ 0) : b.DailyLossMet config ↔
    b.dailyPnl < 0 ∧ config.maxDailyLossPercent ≤ |b.dailyPnl / b.startingEquity * 100| := by
  rw [DailyLossMet, dailyLossPercent, if_neg hne, Option.any_some, decide_eq_true_eq]

theorem recordTrade_eq (now : ℚ) {pnl : ℚ} {isWin : Bool} {counted : TradingBreaker}
    (hcounted : b.tradeCounted isWin pnl = counted)
    (hzero : counted.LossesMet config ∨ counted.startingEquity ≠ 0) :
    ∃ reason, b.recordTrade config now isWin pnl =
      (if counted.LossesMet config ∨ counted.DailyLossMet config ∨ counted.DrawdownMet config then
        counted.trigger config reason now else counted, false) := by
  unfold recordTrade
  rw [hcounted]
  by_cases hlosses : counted.LossesMet config
  · exact ⟨.consecutiveLosses, by simp only [hlosses, if_true, true_or]⟩
  have hne := hzero.resolve_left hlosses
  simp only [hlosses, if_false, false_or, dailyLossPercent, if_neg hne, ← dailyLossMet_iff hne]
  by_cases hdaily : counted.DailyLossMet config
  · exact ⟨.dailyLossLimit, by simp only [hdaily, if_true, true_or]⟩
  · refine ⟨.drawdownLimit, ?_⟩
    simp only [hdaily, if_false, false_or]
    split_ifs <;> rfl

theorem checkThresholds_eq (now : ℚ)
    (hzero : b.state = .opened ∨ b.DrawdownMet config ∨ 0 ≤ b.dailyPnl ∨ b.startingEquity ≠ 0) :
    ∃ reason, b.checkThresholds config now =
      (if b.DrawdownMet config ∨ b.DailyLossMet config then b.trigger config reason now else b,
        false) := by
  unfold checkThresholds
  by_cases hopen : b.state = .opened
  · exact ⟨.drawdownLimit, by simp only [hopen, if_true, trigger, ite_self]⟩
  by_cases hdrawdown : b.DrawdownMet config
  · exact ⟨.drawdownLimit, by simp only [hopen, hdrawdown, if_true, if_false, true_or]⟩
  refine ⟨.dailyLossLimit, ?_⟩
  simp only [hopen, hdrawdown, if_false, false_or]
  by_cases hloss : b.dailyPnl < 0
  · have hne : b.startingEquity ≠ 0 := by
      obtain h | h | h | h := hzero
      · exact absurd h hopen
      · exact absurd h hdrawdown
      · exact absurd hloss (not_lt.mpr h)
      · exact h
    simp only [dailyLossMet_iff hne, hloss, true_and, if_true, dailyLossPercent, if_neg hne]
    split_ifs <;> rfl
  · simp only [DailyLossMet, hloss, false_and, if_false]

theorem recentErrors_self (errors : List ℚ) (now : ℚ) :
    recentErrors config (recentErrors config errors now) now = recentErrors config errors now :=
  List.filter_eq_self.mpr fun _ h => (List.mem_filter.mp h).2

/-- A reset that succeeds closes the breaker and ends its timer. -/
theorem Watched.reset (h : Watched b held) (force : Bool) (now : ℚ) :
    Watched (b.reset config force now).1 (held && !(b.reset config force now).2) := by
  unfold TradingBreaker.reset
  split_ifs with hclosed hearly
  · cases h with
    | closed hs ht hnone => exact .closed hs ht hnone
    | opened hs | cooling _ hs | halfOpen _ hs => cases hs.symm.trans hclosed
  · rw [Bool.not_false, Bool.and_true]
    exact h
  · cases h with
    | closed hs => exact absurd hs hclosed
    | opened _ ht hnone =>
      rw [ht]
      exact .closed rfl rfl hnone
    | cooling task _ ht hother | halfOpen task _ ht hother =>
      rw [ht]
      refine .closed rfl rfl fun id => ?_
      dsimp only
      rw [Function.update_apply]
      split_ifs with heq
      · rfl
      · exact hother id heq

/-- The timer of the breaker has slept through the cooldown. -/
theorem Watched.wake {id : ℕ} (h : Watched b held) (hid : b.timers id = some .sleeping) :
    Watched (b.wake id) (held && decide (b.cooldownTask ≠ some id)) := by
  cases h with
  | closed _ _ hnone | opened _ _ hnone => rw [hnone] at hid; cases hid
  | halfOpen task hs ht hother htimer =>
    by_cases heq : id = task
    · rw [heq, htimer] at hid
      cases hid
    · rw [hother id heq] at hid
      cases hid
  | cooling task hs ht hother htimer =>
    obtain rfl : id = task := by
      by_contra hne
      rw [hother id hne] at hid
      cases hid
    have hwake : b.wake id = { b with
        state := .halfOpen
        timers := Function.update (Function.update b.timers id none) id (some .closing) } := by
      simp [TradingBreaker.wake, hs, ht, cancel, htimer]
    rw [hwake, ht]
    simp only [ne_eq, not_true_eq_false, decide_false, Bool.and_false]
    refine .halfOpen id rfl rfl (fun other hne => ?_) (Function.update_self ..)
    dsimp only
    rw [Function.update_of_ne hne, Function.update_of_ne hne]
    exact hother other hne

theorem Watched.finish {id : ℕ} (h : Watched b held) (hid : b.timers id = some .closing) :
    Watched (b.finish id) held := by
  cases h with
  | closed _ _ hnone | opened _ _ hnone => rw [hnone] at hid; cases hid
  | cooling task hs ht hother htimer =>
    by_cases heq : id = task
    · rw [heq, htimer] at hid
      cases hid
    · rw [hother id heq] at hid
      cases hid
  | halfOpen task hs ht hother htimer =>
    refine .closed rfl rfl fun other => ?_
    dsimp only [TradingBreaker.finish]
    rw [Function.update_apply]
    split_ifs with heq
    · rfl
    · refine hother other fun htask => ?_
      by_cases hother' : id = task
      · exact heq (htask.trans hother'.symm)
      · rw [hother id hother'] at hid
        cases hid

end TradingBreaker

namespace BreakerWorld

variable {config : BreakerConfig} {w w' : BreakerWorld}

structure Sound (w : BreakerWorld) : Prop where
  calm : w.raised = false
  watched : w.breaker.Watched w.held

theorem Sound.step {action : BreakerAction} (h : w.Sound) (hok : w.Heeded config action)
    (hstep : w.step config action = some w') : w'.Sound := by
  cases action with
  | recordTrade now isWin pnl =>
    obtain ⟨hzero, hmet, hhalf⟩ := hok
    obtain ⟨reason, heq⟩ := TradingBreaker.recordTrade_eq now rfl hzero
    cases hstep
    rw [heq]
    refine ⟨by rw [Bool.or_false]; exact h.calm, ?_⟩
    refine h.watched.call (w.breaker.tradeCounted isWin pnl) rfl rfl rfl
      (fun hdecided => hmet (of_decide_eq_true hdecided)) (fun hchecked => ?_) hhalf reason now
    refine decide_eq_true ?_
    obtain hlosses | hdaily | hdrawdown := hchecked
    · exact .inl hlosses
    · exact .inr (.inl hdaily)
    · exact .inr (.inr (.inl hdrawdown))
  | recordOrderError added counted now =>
    obtain ⟨hmet, hhalf⟩ := hok
    cases hstep
    refine ⟨h.calm, h.watched.call (w.breaker.orderErrorCounted config added counted) rfl rfl rfl
      (fun hdecided => hmet (of_decide_eq_true hdecided)) (fun hchecked => ?_) hhalf _ now⟩
    refine decide_eq_true (.inr (.inr (.inr (.inl ?_))))
    dsimp only [TradingBreaker.OrderErrorsMet, TradingBreaker.orderErrorCounted] at hchecked ⊢
    rwa [TradingBreaker.recentErrors_self]
  | recordApiError added counted now =>
    obtain ⟨hmet, hhalf⟩ := hok
    cases hstep
    refine ⟨h.calm, h.watched.call (w.breaker.apiErrorCounted config added counted) rfl rfl rfl
      (fun hdecided => hmet (of_decide_eq_true hdecided)) (fun hchecked => ?_) hhalf _ now⟩
    refine decide_eq_true (.inr (.inr (.inr (.inr ?_))))
    dsimp only [TradingBreaker.ApiErrorsMet, TradingBreaker.apiErrorCounted] at hchecked ⊢
    rwa [TradingBreaker.recentErrors_self]
  | updateEquity equity dailyPnl =>
    cases hstep
    exact ⟨h.calm, h.watched.of_same rfl rfl rfl⟩
  | checkThresholds now =>
    obtain ⟨hzero, hmet, hhalf⟩ := hok
    obtain ⟨reason, heq⟩ := TradingBreaker.checkThresholds_eq now hzero
    cases hstep
    rw [heq]
    refine ⟨by rw [Bool.or_false]; exact h.calm, ?_⟩
    refine h.watched.call w.breaker rfl rfl rfl
      (fun hdecided => hmet (of_decide_eq_true hdecided)) (fun hchecked => ?_) hhalf reason now
    refine decide_eq_true ?_
    obtain hdrawdown | hdaily := hchecked
    · exact .inr (.inr (.inl hdrawdown))
    · exact .inr (.inl hdaily)
  | manualTrigger now =>
    cases hstep
    exact ⟨h.calm, h.watched.trigger hok .manual now⟩
  | reset force now =>
    cases hstep
    exact ⟨h.calm, h.watched.reset force now⟩
  | resetDailyTracking newStartingEquity =>
    cases hstep
    exact ⟨h.calm, h.watched.of_same rfl rfl rfl⟩
  | wake id =>
    by_cases hid : w.breaker.timers id = some .sleeping
    · rw [BreakerWorld.step, if_pos hid] at hstep
      cases hstep
      exact ⟨h.calm, h.watched.wake hid⟩
    · rw [BreakerWorld.step, if_neg hid] at hstep
      cases hstep
  | finish id =>
    by_cases hid : w.breaker.timers id = some .closing
    · rw [BreakerWorld.step, if_pos hid] at hstep
      cases hstep
      exact ⟨h.calm, h.watched.finish hid⟩
    · rw [BreakerWorld.step, if_neg hid] at hstep
      cases hstep

theorem Sound.obeys (h : w.Sound) : w.Obeys where
  calm := h.calm
  off hheld := by
    have hwatched := hheld ▸ h.watched
    cases hwatched with
    | opened hs | cooling _ hs => simp [TradingBreaker.canTrade, hs]
  closed hheld hidle := by
    have hwatched := hheld ▸ h.watched
    cases hwatched with
    | closed hs => exact hs
    | halfOpen task _ _ _ htimer => exact absurd htimer (hidle task)

/-- After every run of heeded calls the breaker is open as long as trading has to be off, and
closed once it has been reset or its cooldown has ended. -/
theorem breaker_obeys {startingEquity : ℚ} {actions : List BreakerAction}
    (hheeded : Transition.Meets (step config) (Heeded config) (create startingEquity) actions)
    (hrun : Transition.run (step config) (create startingEquity) actions = some w) : w.Obeys :=
  (Transition.run_invariant (I := Sound) (fun _ _ _ h hok hstep => h.step hok hstep)
    ⟨rfl, .closed rfl rfl fun _ => rfl⟩ hheeded hrun).obeys

end BreakerWorld

namespace Sample

/-- The thresholds by default. -/
def defaultBreakerConfig : BreakerConfig := ⟨⟨5, 5, 10⟩, 5, 10, 300, 300, false⟩

def singleLossConfig : BreakerConfig :=
  { defaultBreakerConfig with maxConsecutiveLosses := 1, autoReset := true }

/-- A loss trips the breaker, its timer closes it, and a manual stop trips it again. -/
def cooledTrip : List BreakerAction :=
  [.recordTrade 0 false 0, .wake 0, .finish 0, .manualTrigger 400]

end Sample

namespace BreakerWorld

open Sample

theorem breaker_obeys_cooled : ∃ w,
    Transition.run (step singleLossConfig) (create 1000) cooledTrip = some w ∧ w.Obeys := by
  have hloss : (TradingBreaker.tradeCounted (.create 1000) false 0).LossesMet singleLossConfig :=
    Nat.le_refl 1
  refine ⟨_, rfl, @breaker_obeys singleLossConfig _ 1000 cooledTrip ?_ rfl⟩
  refine Transition.meets_cons rfl ⟨.inl hloss, fun _ => .inr (.inl hloss), fun _ => by decide⟩ ?_
  exact Transition.meets_cons rfl trivial (Transition.meets_cons rfl trivial
    (Transition.meets_cons rfl (show BreakerState.closed ≠ .halfOpen by decide) trivial))

theorem zero_equity_raises : ¬ ∀ (config : BreakerConfig) (startingEquity : ℚ)
    (actions : List BreakerAction) (w : BreakerWorld),
    Transition.run (step config) (create startingEquity) actions = some w → w.Obeys := by
  intro hall
  have hcalm := (hall defaultBreakerConfig 0 [.recordTrade 0 true 0] _ rfl).calm
  exact absurd hcalm (by decide)

end BreakerWorld

end LlamaTrade
