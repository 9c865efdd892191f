import LlamaTrade.DeliveredFills

/-!
# Realized P&L

What the fills of a runner tell its circuit breaker (`_handle_fill_event` of `runner/runner.py`,
`CircuitBreaker.record_trade` of `circuit_breaker.py`). Alerts are left out, and a starting equity
of zero, by which the percentages would divide.
-/

namespace LlamaTrade

inductive CircuitBreakerReason where
  | consecutiveLosses | dailyLossLimit | drawdownLimit
  deriving DecidableEq

/-- The thresholds of `CircuitBreakerConfig` that `record_trade` reads. -/
structure CircuitBreakerConfig where
  maxConsecutiveLosses : ℕ
  maxDailyLossPercent : ℚ
  maxDrawdownPercent : ℚ

/-- `CircuitBreaker`; it is open when it was triggered. -/
structure CircuitBreaker where
  startingEquity : ℚ
  consecutiveLosses : ℕ
  dailyPnl : ℚ
  currentEquity : ℚ
  peakEquity : ℚ
  triggeredReason : Option CircuitBreakerReason

namespace CircuitBreaker

/-- `_trigger`: a breaker that is open keeps its reason. -/
def trigger (breaker : CircuitBreaker) (reason : CircuitBreakerReason) : CircuitBreaker :=
  { breaker with triggeredReason := some (breaker.triggeredReason.getD reason) }

/-- The counters after a trade. -/
def counted (breaker : CircuitBreaker) (isWin : Bool) (pnl : ℚ) : CircuitBreaker :=
  { breaker with
    consecutiveLosses := if isWin then 0 else breaker.consecutiveLosses + 1
    dailyPnl := breaker.dailyPnl + pnl
    currentEquity := breaker.currentEquity + pnl
    peakEquity := max breaker.peakEquity (breaker.currentEquity + pnl) }

/-- `record_trade`. -/
def recordTrade (config : CircuitBreakerConfig) (breaker : CircuitBreaker) (isWin : Bool)
    (pnl : ℚ) : CircuitBreaker :=
  let breaker := breaker.counted isWin pnl
  if config.maxConsecutiveLosses ≤ breaker.consecutiveLosses then
    breaker.trigger .consecutiveLosses
  else if breaker.dailyPnl < 0 ∧
      config.maxDailyLossPercent ≤ |breaker.dailyPnl / breaker.startingEquity * 100| then
    breaker.trigger .dailyLossLimit
  else if 0 < breaker.peakEquity ∧ config.maxDrawdownPercent ≤
      (breaker.peakEquity - breaker.currentEquity) / breaker.peakEquity * 100 then
    breaker.trigger .drawdownLimit
  else breaker

theorem dailyPnl_recordTrade (config : CircuitBreakerConfig) (breaker : CircuitBreaker)
    (isWin : Bool) (pnl : ℚ) :
    (breaker.recordTrade config isWin pnl).dailyPnl = breaker.dailyPnl + pnl := by
  unfold recordTrade
  extract_lets counted
  split_ifs <;> rfl

end CircuitBreaker

/-- `_realized_pnl`. -/
def realizedPnl (entryPrice exitPrice qty : ℚ) (isLong : Bool) : ℚ :=
  (if isLong then exitPrice - entryPrice else entryPrice - exitPrice) * qty

/-- The P&L that a fill records: a fill that leaves some of the position records none. -/
def recordedPnl (old : Option RunnerPosition) (side : OrderSide) (qty price : ℚ) : Option ℚ :=
  match side, old with
  | .buy, some ⟨.short, held, entry, _⟩ =>
    if held - qty ≤ 0 then some (realizedPnl entry price held false) else none
  | .sell, some ⟨.long, held, entry, _⟩ =>
    if held - qty ≤ 0 then some (realizedPnl entry price held true) else none
  | _, _ => none

/-- The P&L of a fill that leaves some of the position. -/
def unrecordedPnl (old : Option RunnerPosition) (side : OrderSide) (qty price : ℚ) : ℚ :=
  match side, old with
  | .buy, some ⟨.short, held, entry, _⟩ =>
    if held - qty ≤ 0 then 0 else realizedPnl entry price qty false
  | .sell, some ⟨.long, held, entry, _⟩ =>
    if held - qty ≤ 0 then 0 else realizedPnl entry price qty true
  | _, _ => 0

/-- A book with its circuit breaker, the P&L values passed to it, the totals of the sales and of
the purchases, and the P&L of the fills that left some of the position. -/
structure PnlBook where
  book : RunnerBook
  breaker : CircuitBreaker
  passed : List ℚ
  proceeds : ℚ
  cost : ℚ
  unrecorded : ℚ

namespace PnlBook

variable (config : CircuitBreakerConfig)

/-- The quantity that a fill event still applies. -/
def appliedQty (w : PnlBook) (event : BookEvent) : ℚ :=
  (event.fill.map fun fill => (w.book.unappliedFillDelta event.eventType fill).1).getD 0

/-- `_handle_fill_event`, with what it tells the circuit breaker. -/
def fill (w : PnlBook) (event : BookEvent) : Option PnlBook :=
  match event.fill with
  | none => some w
  | some fill =>
    let qty := w.appliedQty event
    if qty ≤ 0 then some { w with book := w.book.handleFillEvent event }
    else
      let old := w.book.positions fill.symbol
      let pnl := recordedPnl old fill.side qty fill.fillPrice
      some {
        book := w.book.handleFillEvent event
        breaker := pnl.elim w.breaker fun pnl =>
          w.breaker.recordTrade config (0 ≤ pnl) pnl
        passed := w.passed ++ pnl.toList
        proceeds := w.proceeds + if fill.side = .sell then fill.fillPrice * qty else 0
        cost := w.cost + if fill.side = .buy then fill.fillPrice * qty else 0
        unrecorded := w.unrecorded + unrecordedPnl old fill.side qty fill.fillPrice }

/-- The fill event is of the symbol and closes no more than the position against it. -/
def OnSymbol (symbol : String) (w : PnlBook) (event : BookEvent) : Prop :=
  ∀ fill, event.fill = some fill → fill.symbol = symbol ∧
    WithinPosition (w.book.positions symbol) fill.side (w.appliedQty event)

/-- The totals before the first fill of a flat symbol. -/
structure Begins (symbol : String) (w : PnlBook) : Prop where
  flat : w.book.positions symbol = none
  passed : w.passed = []
  proceeds : w.proceeds = 0
  cost : w.cost = 0
  unrecorded : w.unrecorded = 0

end PnlBook

/-- What the position of a symbol has cost, negative for what a short one has brought. -/
def carriedCost : Option RunnerPosition → ℚ
  | none => 0
  | some ⟨.long, quantity, entryPrice, _⟩ => entryPrice * quantity
  | some ⟨.short, quantity, entryPrice, _⟩ => -(entryPrice * quantity)

/-- One fill: what it brings or costs is the P&L and the change of the carried cost. -/
theorem filledPosition_carriedCost {old : Option RunnerPosition} {side : OrderSide} {qty : ℚ}
    (hpos : PositivePosition old) (hqty : 0 < qty) (hwithin : WithinPosition old side qty)
    (price : ℚ) (now : ℤ) :
    (recordedPnl old side qty price).toList.sum + unrecordedPnl old side qty price =
      (if side = .sell then price * qty else 0) - (if side = .buy then price * qty else 0) +
        (carriedCost (RunnerBook.filledPosition old side qty price now) - carriedCost old) := by
  cases old with
  | none => cases side <;> simp [recordedPnl, unrecordedPnl, RunnerBook.filledPosition, carriedCost]
  | some position =>
    obtain ⟨side', held, entry, date⟩ := position
    have hheld : 0 < held := hpos _ rfl
    have hsum : held + qty ≠ 0 := (add_pos hheld hqty).ne'
    cases side <;> cases side'
    · -- adding to a long position
      simp [recordedPnl, unrecordedPnl, RunnerBook.filledPosition, carriedCost,
        div_mul_cancel₀ _ hsum]
    · -- covering a short one
      have hle : qty ≤ held := hwithin _ rfl (.inl ⟨rfl, rfl⟩)
      simp only [recordedPnl, unrecordedPnl, RunnerBook.filledPosition, reduceCtorEq, if_false,
        if_true]
      split_ifs with hclosed
      · obtain rfl : qty = held := le_antisymm hle (by linarith)
        simp [carriedCost, realizedPnl]
        ring
      · simp [carriedCost, realizedPnl]
        ring
    · -- closing a long one
      have hle : qty ≤ held := hwithin _ rfl (.inr ⟨rfl, rfl⟩)
      simp only [recordedPnl, unrecordedPnl, RunnerBook.filledPosition, reduceCtorEq, if_false,
        if_true]
      split_ifs with hclosed
      · obtain rfl : qty = held := le_antisymm hle (by linarith)
        simp [carriedCost, realizedPnl]
        ring
      · simp [carriedCost, realizedPnl]
        ring
    · -- adding to a short one
      simp [recordedPnl, unrecordedPnl, RunnerBook.filledPosition, carriedCost,
        div_mul_cancel₀ _ hsum]

/-! ## Runs -/

section Runs

variable {config : CircuitBreakerConfig} {symbol : String} {w w' : PnlBook}

/-- The P&L that the breaker was told and the one it was not make up what the fills have brought and
what the position has cost. -/
structure PnlBook.Accounted (symbol : String) (dailyPnl : ℚ) (w : PnlBook) : Prop where
  positive : PositivePosition (w.book.positions symbol)
  totals : w.passed.sum + w.unrecorded =
    w.proceeds - w.cost + carriedCost (w.book.positions symbol)
  daily : w.breaker.dailyPnl = dailyPnl + w.passed.sum

theorem unappliedFillDelta_positions (book : RunnerBook) (eventType : TradeEventType)
    (fill : FillData) : (book.unappliedFillDelta eventType fill).2.positions = book.positions := by
  simp only [RunnerBook.unappliedFillDelta]
  split_ifs <;> rfl

/-- One fill event. -/
theorem PnlBook.Accounted.fill {dailyPnl : ℚ} {event : BookEvent}
    (h : w.Accounted symbol dailyPnl) (hon : w.OnSymbol symbol event)
    (hstep : w.fill config event = some w') : w'.Accounted symbol dailyPnl := by
  unfold PnlBook.fill at hstep
  cases hfill : event.fill with
  | none =>
    rw [hfill] at hstep
    cases hstep
    exact h
  | some fill =>
    obtain ⟨rfl, hwithin⟩ := hon fill hfill
    have hpositions := unappliedFillDelta_positions w.book event.eventType fill
    have happlied : w.appliedQty event = (w.book.unappliedFillDelta event.eventType fill).1 := by
      rw [PnlBook.appliedQty, hfill, Option.map_some, Option.getD_some]
    have hbook : w.book.handleFillEvent event =
        if w.appliedQty event ≤ 0 then (w.book.unappliedFillDelta event.eventType fill).2
        else { (w.book.unappliedFillDelta event.eventType fill).2 with
          positions := Function.update w.book.positions fill.symbol
            (RunnerBook.filledPosition (w.book.positions fill.symbol) fill.side
              (w.appliedQty event) fill.fillPrice event.timestamp) } := by
      simp only [RunnerBook.handleFillEvent, hfill, happlied, hpositions]
    rw [hfill] at hstep
    simp only [hbook] at hstep
    by_cases hnone : w.appliedQty event ≤ 0
    · rw [if_pos hnone, if_pos hnone] at hstep
      cases hstep
      exact ⟨hpositions ▸ h.positive, hpositions ▸ h.totals, h.daily⟩
    · rw [if_neg hnone, if_neg hnone] at hstep
      cases hstep
      have hqty : 0 < w.appliedQty event := not_le.mp hnone
      obtain ⟨-, hpositive⟩ := filledPosition_signed h.positive hqty hwithin fill.fillPrice
        event.timestamp
      have hcost := filledPosition_carriedCost h.positive hqty hwithin fill.fillPrice
        event.timestamp
      have htotals := h.totals
      refine ⟨?_, ?_, ?_⟩
      · dsimp only
        rw [Function.update_self]
        exact hpositive
      · dsimp only
        rw [Function.update_self, List.sum_append]
        linarith
      · dsimp only
        rw [List.sum_append]
        cases recordedPnl (w.book.positions fill.symbol) fill.side (w.appliedQty event)
            fill.fillPrice with
        | none => simpa using h.daily
        | some pnl =>
          simp only [Option.elim_some, CircuitBreaker.dailyPnl_recordTrade, h.daily]
          simp
          ring

end Runs

/-- From flat to flat without crossing through zero, the P&L values passed to the breaker, and with
them its daily P&L, are the proceeds less the cost exactly when the P&L of the fills that left some
of the position adds up to zero. -/
theorem realized_pnl_reaches_breaker {config : CircuitBreakerConfig} {symbol : String}
    {events : List BookEvent} {w w' : PnlBook} (hbegin : w.Begins symbol)
    (hon : Transition.Meets (PnlBook.fill config) (fun w event => w.OnSymbol symbol event) w events)
    (hrun : Transition.run (PnlBook.fill config) w events = some w')
    (hflat : w'.book.positions symbol = none) :
    w'.passed.sum = w'.proceeds - w'.cost ∧
        w'.breaker.dailyPnl = w.breaker.dailyPnl + (w'.proceeds - w'.cost) ↔
      w'.unrecorded = 0 := by
  have hstart : w.Accounted symbol w.breaker.dailyPnl := by
    refine ⟨fun position h => ?_, ?_, ?_⟩
    · rw [hbegin.flat] at h
      cases h
    · simp [hbegin.passed, hbegin.unrecorded, hbegin.proceeds, hbegin.cost, hbegin.flat,
        carriedCost]
    · simp [hbegin.passed]
  have hend : w'.Accounted symbol w.breaker.dailyPnl :=
    Transition.run_invariant (fun _ _ _ h hok hstep => h.fill hok hstep) hstart hon hrun
  have htotals := hend.totals
  rw [hflat, carriedCost, add_zero] at htotals
  rw [hend.daily]
  constructor
  · rintro ⟨hpassed, -⟩
    linarith
  · intro hzero
    rw [hzero, add_zero] at htotals
    exact ⟨htotals, by rw [htotals]⟩

namespace Sample

def breakerConfig : CircuitBreakerConfig := ⟨5, 5, 10⟩

/-- The fill of an order for SPY. -/
def exitFill (id : String) (side : OrderSide) (qty price : ℚ) : BookEvent :=
  ⟨.fill, id, "SPY", 1, some ⟨id, "SPY", side, qty, price, qty⟩⟩

/-- The books of a runner that has bought four shares at 100 and sold some of them at 90. -/
def pnlStart : PnlBook := ⟨.empty, ⟨1000, 0, 0, 1000, 1000, none⟩, [], 0, 0, 0⟩

def pnlBought : PnlBook :=
  { pnlStart with
    book := ⟨Function.update (fun _ => none) "SPY" (some ⟨.long, 4, 100, 1⟩), fun _ => none, ["a"]⟩
    cost := 400 }

def pnlReduced : PnlBook :=
  { pnlBought with
    book := ⟨Function.update (fun _ => none) "SPY" (some ⟨.long, 2, 100, 1⟩), fun _ => none,
      ["a", "b"]⟩
    proceeds := 180
    unrecorded := -20 }

theorem pnlStart_fill : pnlStart.fill breakerConfig (exitFill "a" .buy 4 100) = some pnlBought := by
  norm_num +decide [PnlBook.fill, PnlBook.appliedQty, pnlStart, pnlBought, exitFill,
    RunnerBook.empty, RunnerBook.unappliedFillDelta, RunnerBook.handleFillEvent,
    RunnerBook.clearFillTracking, RunnerBook.filledPosition, recordedPnl, unrecordedPnl]

theorem pnlBought_fill :
    pnlBought.fill breakerConfig (exitFill "b" .sell 2 90) = some pnlReduced := by
  norm_num +decide [PnlBook.fill, PnlBook.appliedQty, pnlStart, pnlBought, pnlReduced, exitFill,
    RunnerBook.unappliedFillDelta, RunnerBook.handleFillEvent, RunnerBook.clearFillTracking,
    RunnerBook.filledPosition, recordedPnl, unrecordedPnl, realizedPnl]

theorem pnlStart_onSymbol : pnlStart.OnSymbol "SPY" (exitFill "a" .buy 4 100) := by
  rintro fill ⟨⟩
  exact ⟨rfl, fun position h => by cases h⟩

theorem pnlBought_onSymbol (qty price : ℚ) (hqty : 0 < qty ∧ qty ≤ 4) :
    pnlBought.OnSymbol "SPY" (exitFill "b" .sell qty price) := by
  rintro fill ⟨⟩
  refine ⟨rfl, fun position h _ => ?_⟩
  cases h
  simpa +decide [PnlBook.appliedQty, exitFill, pnlBought, RunnerBook.unappliedFillDelta, hqty.1]
    using hqty.2

theorem pnlReduced_onSymbol : pnlReduced.OnSymbol "SPY" (exitFill "c" .sell 2 110) := by
  rintro fill ⟨⟩
  refine ⟨rfl, fun position h _ => ?_⟩
  cases h
  norm_num +decide [PnlBook.appliedQty, exitFill, pnlReduced, RunnerBook.unappliedFillDelta]

theorem pnlStart_begins : pnlStart.Begins "SPY" := ⟨rfl, rfl, rfl, rfl, rfl⟩

end Sample

theorem realized_pnl_reaches_breaker_one_exit :
    ∃ w, Transition.run (PnlBook.fill Sample.breakerConfig) Sample.pnlStart
        [Sample.exitFill "a" .buy 4 100, Sample.exitFill "b" .sell 4 110] = some w ∧
      (w.passed.sum = w.proceeds - w.cost ∧
          w.breaker.dailyPnl = Sample.pnlStart.breaker.dailyPnl + (w.proceeds - w.cost) ↔
        w.unrecorded = 0) := by
  obtain ⟨w, hlast, hflat⟩ : ∃ w, Sample.pnlBought.fill Sample.breakerConfig
      (Sample.exitFill "b" .sell 4 110) = some w ∧ w.book.positions "SPY" = none := by
    norm_num +decide [PnlBook.fill, PnlBook.appliedQty, Sample.pnlBought, Sample.exitFill,
      RunnerBook.unappliedFillDelta, RunnerBook.handleFillEvent, RunnerBook.clearFillTracking,
      RunnerBook.filledPosition]
  have hrun : Transition.run (PnlBook.fill Sample.breakerConfig) Sample.pnlStart
      [Sample.exitFill "a" .buy 4 100, Sample.exitFill "b" .sell 4 110] = some w := by
    rw [Transition.run, Sample.pnlStart_fill, Option.bind_some, Transition.run, hlast]
    rfl
  refine ⟨w, hrun, realized_pnl_reaches_breaker Sample.pnlStart_begins ?_ hrun hflat⟩
  exact Transition.meets_cons Sample.pnlStart_fill Sample.pnlStart_onSymbol
    (Transition.meets_cons hlast (Sample.pnlBought_onSymbol 4 110 (by norm_num)) trivial)

/-- A loss of 20 in the first half of an exit does not reach the breaker. -/
theorem partial_exit_is_not_recorded :
    ∃ w, Transition.Meets (PnlBook.fill Sample.breakerConfig)
        (fun w event => w.OnSymbol "SPY" event) Sample.pnlStart
        [Sample.exitFill "a" .buy 4 100, Sample.exitFill "b" .sell 2 90,
          Sample.exitFill "c" .sell 2 110] ∧
      Transition.run (PnlBook.fill Sample.breakerConfig) Sample.pnlStart
        [Sample.exitFill "a" .buy 4 100, Sample.exitFill "b" .sell 2 90,
          Sample.exitFill "c" .sell 2 110] = some w ∧
      w.book.positions "SPY" = none ∧ w.passed.sum = 20 ∧ w.proceeds - w.cost = 0 := by
  obtain ⟨w, hlast, hend⟩ : ∃ w, Sample.pnlReduced.fill Sample.breakerConfig
      (Sample.exitFill "c" .sell 2 110) = some w ∧
        w.book.positions "SPY" = none ∧ w.passed.sum = 20 ∧ w.proceeds - w.cost = 0 := by
    norm_num +decide [PnlBook.fill, PnlBook.appliedQty, Sample.pnlReduced, Sample.pnlBought,
      Sample.pnlStart, Sample.exitFill, RunnerBook.unappliedFillDelta, RunnerBook.handleFillEvent,
      RunnerBook.clearFillTracking, RunnerBook.filledPosition, recordedPnl, realizedPnl]
  refine ⟨w, ?_, ?_, hend⟩
  · exact Transition.meets_cons Sample.pnlStart_fill Sample.pnlStart_onSymbol
      (Transition.meets_cons Sample.pnlBought_fill (Sample.pnlBought_onSymbol 2 90 (by norm_num))
        (Transition.meets_cons hlast Sample.pnlReduced_onSymbol trivial))
  · rw [Transition.run, Sample.pnlStart_fill, Option.bind_some, Transition.run,
      Sample.pnlBought_fill, Option.bind_some, Transition.run, hlast]
    rfl

end LlamaTrade
